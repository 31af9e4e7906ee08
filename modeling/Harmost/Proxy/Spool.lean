import Harmost.Support.Threads
import Mathlib.Algebra.GroupWithZero.Nat
import Mathlib.Data.List.Basic

/-!
# The response spool

A bounded buffer that decouples the origin from a slow client: it withholds a
response body until the origin has finished, or until one of two ceilings is
met, its own and that of the budget that all spools share.  Then it hands over
what it holds and lets the rest pass.  Whatever the budget answers, the body
reaches the client whole and in order.

The spool only asks the budget; how the budget answers is in
`Harmost.Proxy.SpoolBudget`.
-/

namespace Harmost.Proxy

open Harmost.Support

abbrev Bytes := List UInt8

/-- Why a request stopped spooling. -/
inductive SpoolOutcome where
  | complete
  | bodyTooLarge
  | budgetExhausted
  deriving DecidableEq

/-- One request's buffer. -/
structure Spool where
  buffer : Bytes := []
  /-- How much of the budget this request holds. -/
  reserved : ℕ := 0
  maxBody : ℕ
  /-- Once this is set the spool is inert. -/
  gaveUp : Option SpoolOutcome := none
  /-- Everything an inert spool held has been handed downstream. -/
  drained : gaveUp.isSome = true → buffer = []

/-- How much budget to claim at a time. -/
abbrev RESERVE_STEP : ℕ := 64 * 1024

/-- What is written downstream is not empty. -/
def thenSome (out : Bytes) : Option Bytes :=
  if out.isEmpty then none else some out

@[simp] theorem getD_thenSome (out : Bytes) : (thenSome out).getD [] = out := by
  cases out <;> rfl

/-- A program that asks the budget for bytes. -/
abbrev Reserving := Prog fun _ : ℕ => Bool

/-- The account of a spool: a reservation that is granted adds its bytes. -/
def reserving : Discipline (fun _ : ℕ => Bool) ℕ where
  permits := fun _ _ => True
  next := fun account bytes ok => account + if ok then bytes else 0

namespace Spool

def new (maxBody : ℕ) : Spool where
  maxBody := maxBody
  drained := fun _ => rfl

variable (spool : Spool)

/-- Hand the buffer downstream, keeping the reservation. -/
def drain : Option Bytes × Spool :=
  (thenSome spool.buffer, { spool with buffer := [], drained := fun _ => rfl })

/-- Stop absorbing: hand back everything buffered, then the chunk that did not
fit. -/
def giveUp (why : SpoolOutcome) (chunk : Option Bytes) :
    Option Bytes × Spool :=
  let (out, drained) := spool.drain
  (thenSome (out.getD [] ++ chunk.getD []),
    { drained with gaveUp := some why, buffer := [], drained := fun _ => rfl })

/-- The bytes to claim when so many are needed.  The sum before rounding
saturates. -/
def reserveStep (needed : ℕ) : ℕ :=
  min (min (needed - spool.reserved + (RESERVE_STEP - 1)) (2 ^ 64 - 1) /
    RESERVE_STEP * RESERVE_STEP) (spool.maxBody - spool.reserved)

/-- Claim budget until so many bytes are covered: the reservation afterwards,
if the budget did not refuse. -/
def ensureReserved (needed : ℕ) : Reserving (Option ℕ) :=
  if needed ≤ spool.reserved then pure (some spool.reserved)
  else do
    let step := spool.reserveStep needed
    if ← Prog.ask step then pure (some (spool.reserved + step))
    else pure none

/-- Take a chunk that is covered by the reservation into the buffer. -/
def absorb (bytes : Bytes) (reserved : ℕ) (hactive : spool.gaveUp = none) :
    Spool :=
  { spool with
    buffer := spool.buffer ++ bytes
    reserved := reserved
    drained := fun h => by rw [hactive] at h; cases h }

/-- The end of an offer, after its chunk has been absorbed. -/
def finish (endOfStream : Bool) : Option Bytes × Spool :=
  if endOfStream then
    let (out, drained) := spool.drain
    (out, { drained with
      gaveUp := some .complete, buffer := [], drained := fun _ => rfl })
  else (none, spool)

/-- Offer one body chunk: what should be written downstream now.  The lengths
of two byte strings in memory have a sum that does not overflow. -/
def offer (chunk : Option Bytes) (endOfStream : Bool) :
    Reserving (Option Bytes × Spool) :=
  if hactive : spool.gaveUp = none then
    let incoming := (chunk.getD []).length
    if 0 < incoming then
      if spool.maxBody < spool.buffer.length + incoming then
        pure (spool.giveUp .bodyTooLarge chunk)
      else do
        match ← spool.ensureReserved (spool.buffer.length + incoming) with
        | none => pure (spool.giveUp .budgetExhausted chunk)
        | some reserved =>
            pure ((spool.absorb (chunk.getD []) reserved hactive).finish
              endOfStream)
    else pure (spool.finish endOfStream)
  else pure (chunk, spool)

/-! ## What an offer does -/

variable {spool}

/-- How one offer can end.  The bytes it returns and those it leaves in the
buffer are those that were in the buffer and those of the chunk. -/
inductive Offered (spool : Spool) (chunk : Option Bytes) (endOfStream : Bool) :
    Option Bytes × Spool → Prop
  | passed (hinert : spool.gaveUp.isSome = true) :
      Offered spool chunk endOfStream (chunk, spool)
  | absorbed {after : Spool} (hactive : spool.gaveUp = none)
      (hmore : endOfStream = false) (hstill : after.gaveUp = none)
      (hbuffer : after.buffer = spool.buffer ++ chunk.getD []) :
      Offered spool chunk endOfStream (none, after)
  | flushed {out : Option Bytes} {after : Spool} (hactive : spool.gaveUp = none)
      (hinert : after.gaveUp.isSome = true)
      (hout : out.getD [] = spool.buffer ++ chunk.getD []) :
      Offered spool chunk endOfStream (out, after)

theorem offered_giveUp (why : SpoolOutcome) {chunk : Option Bytes}
    {endOfStream : Bool} (hactive : spool.gaveUp = none) :
    Offered spool chunk endOfStream (spool.giveUp why chunk) := by
  refine .flushed hactive rfl ?_
  simp

theorem offered_finish {after : Spool} {chunk : Option Bytes}
    (endOfStream : Bool) (hactive : spool.gaveUp = none)
    (hstill : after.gaveUp = none)
    (hbuffer : after.buffer = spool.buffer ++ chunk.getD []) :
    Offered spool chunk endOfStream (after.finish endOfStream) := by
  cases endOfStream with
  | false => exact .absorbed hactive rfl hstill hbuffer
  | true =>
      exact .flushed hactive rfl ((getD_thenSome after.buffer).trans hbuffer)

/-- Whatever the budget answers, an offer ends in one of these ways. -/
theorem obeys_offer (spool : Spool) (chunk : Option Bytes)
    (endOfStream : Bool) (account : ℕ) :
    reserving.Obeys (fun _ => Offered spool chunk endOfStream) account
      (spool.offer chunk endOfStream) := by
  unfold offer
  dsimp only
  split_ifs with hactive hincoming hlarge
  · exact offered_giveUp .bodyTooLarge hactive
  · refine Discipline.obeys_bind.mpr
      (Discipline.Obeys.mono (P := fun _ _ => True) ?_ ?_)
    · rw [ensureReserved]
      split_ifs
      · trivial
      · refine ⟨trivial, ?_⟩
        rintro (_ | _) - <;> trivial
    · rintro - (_ | reserved) -
      · exact offered_giveUp .budgetExhausted hactive
      · exact offered_finish endOfStream hactive hactive rfl
  · refine offered_finish endOfStream hactive hactive ?_
    rw [List.eq_nil_of_length_eq_zero (Nat.eq_zero_of_not_pos hincoming),
      List.append_nil]
  · refine .passed ?_
    rwa [Option.isSome_iff_ne_none]

section Offered

variable {chunk : Option Bytes} {endOfStream : Bool}
    {result : Option Bytes × Spool}

theorem Offered.append_buffer (h : Offered spool chunk endOfStream result) :
    result.1.getD [] ++ result.2.buffer = spool.buffer ++ chunk.getD [] := by
  cases h with
  | passed hinert => simp [spool.drained hinert]
  | absorbed _ _ _ hbuffer => exact hbuffer
  | flushed _ hinert hout => rwa [Spool.drained _ hinert, List.append_nil]

/-- A spool that has given up stays inert. -/
theorem Offered.gaveUp (h : Offered spool chunk endOfStream result)
    (hgaveUp : spool.gaveUp.isSome = true ∨ result.1.isSome = true ∨
      endOfStream = true) : result.2.gaveUp.isSome = true := by
  cases h with
  | passed hinert => exact hinert
  | absorbed hactive hmore => simp [hactive, hmore] at hgaveUp
  | flushed _ hinert => exact hinert

end Offered

end Spool

/-! ## Whole bodies -/

/-- One call of `offer`, and what the budget answers meanwhile. -/
structure Offer where
  chunk : Option Bytes
  endOfStream : Bool
  reserve : ℕ → Bool

/-- A spool, and what its offers have returned. -/
structure Delivery where
  spool : Spool
  returned : List (Option Bytes) := []

namespace Delivery

def step (delivery : Delivery) (offer : Offer) : Delivery :=
  let result := ((delivery.spool.offer offer.chunk offer.endOfStream).alone
    (fun u bytes => (offer.reserve bytes, u)) ()).1
  { spool := result.2, returned := delivery.returned ++ [result.1] }

/-- The bytes in a list of chunks that may be absent. -/
def bytes (chunks : List (Option Bytes)) : Bytes :=
  chunks.flatMap fun chunk => chunk.getD []

variable {delivery : Delivery} {offered : List (Option Bytes)}

/-- What has been offered has been returned or is in the buffer, and nothing is
in the buffer any more once something was returned. -/
structure Inv (offered : List (Option Bytes)) (delivery : Delivery) : Prop where
  bytes_eq : bytes delivery.returned ++ delivery.spool.buffer = bytes offered
  gaveUp : (∃ out ∈ delivery.returned, out.isSome = true) →
    delivery.spool.gaveUp.isSome = true

theorem offered_step (offer : Offer) :
    ∃ result, delivery.step offer =
        { spool := result.2, returned := delivery.returned ++ [result.1] } ∧
      delivery.spool.Offered offer.chunk offer.endOfStream result := by
  obtain ⟨-, h⟩ := (delivery.spool.obeys_offer offer.chunk
    offer.endOfStream 0).alone
      (fun u bytes => (offer.reserve bytes, u)) (fun _ _ _ => trivial) ()
  exact ⟨_, rfl, h⟩

theorem Inv.step (h : Inv offered delivery) (offer : Offer) :
    Inv (offered ++ [offer.chunk]) (delivery.step offer) := by
  obtain ⟨result, hstep, hoffered⟩ := delivery.offered_step offer
  rw [hstep]
  constructor
  · calc
      bytes (delivery.returned ++ [result.1]) ++ result.2.buffer
        = bytes delivery.returned ++
            (result.1.getD [] ++ result.2.buffer) := by simp [bytes]
      _ = bytes delivery.returned ++ delivery.spool.buffer ++
            offer.chunk.getD [] := by
          rw [hoffered.append_buffer, List.append_assoc]
      _ = bytes (offered ++ [offer.chunk]) := by
          rw [h.bytes_eq]
          simp [bytes]
  · rintro ⟨out, hmem, hout⟩
    refine hoffered.gaveUp ?_
    rcases List.mem_append.mp hmem with hmem | hmem
    · exact .inl (h.gaveUp ⟨out, hmem, hout⟩)
    · obtain rfl := List.mem_singleton.mp hmem
      exact .inr (.inl hout)

theorem Inv.run (h : Inv offered delivery) (offers : List Offer) :
    Inv (offered ++ offers.map Offer.chunk)
      (Support.run Delivery.step delivery offers) := by
  induction offers generalizing delivery offered with
  | nil => simpa using h
  | cons offer offers ih =>
      have hrun := ih (h.step offer)
      rwa [List.append_assoc] at hrun

theorem inv_new (maxBody : ℕ) : Inv [] { spool := .new maxBody } where
  bytes_eq := rfl
  gaveUp := by simp

/-- After an offer that ends the stream nothing is left in the buffer. -/
theorem buffer_of_end {offer : Offer} (hend : offer.endOfStream = true) :
    (delivery.step offer).spool.buffer = [] := by
  obtain ⟨result, hstep, hoffered⟩ := delivery.offered_step offer
  rw [hstep]
  exact result.2.drained (hoffered.gaveUp (.inr (.inr hend)))

/-- The offers of a body to a new spool, whatever the budget answers: what they
return, up to and including the one that ends the stream, is the body, and from
the first that returns something nothing is left in the buffer. -/
theorem spool_preserves_body (maxBody : ℕ) (offers : List Offer)
    (chunk : Option Bytes) (reserve : ℕ → Bool) :
    let start : Delivery := { spool := .new maxBody }
    let all := offers ++ [⟨chunk, true, reserve⟩]
    bytes (Support.run step start all).returned =
        bytes (all.map Offer.chunk) ∧
      ∀ made, made <+: all →
        (∃ out ∈ (Support.run step start made).returned, out.isSome = true) →
          (Support.run step start made).spool.buffer = [] := by
  intro start all
  constructor
  · have hinv := ((inv_new maxBody).run all).bytes_eq
    have hempty : (Support.run step start all).spool.buffer = [] := by
      rw [run_append]
      exact buffer_of_end rfl
    rwa [hempty, List.append_nil] at hinv
  · rintro made - hreturned
    have hinv := (inv_new maxBody).run made
    exact Spool.drained _ (hinv.gaveUp hreturned)

end Delivery

end Harmost.Proxy
