import Harmost.Support.Json

/-!
# The JSON escaper

Access logs, span payloads and the admin status document write strings that a
client can influence through one escaper.  A JSON parser takes back what it
wrote, and no control character is left in it.
-/

namespace Harmost.Telemetry

open Harmost.Support

/-- One turn of the loop of `escape_into`. -/
def escapeChar (c : Char) : Str :=
  if c = '"' then ['\\', '"']
  else if c = '\\' then ['\\', '\\']
  else if c = '\n' then ['\\', 'n']
  else if c = '\r' then ['\\', 'r']
  else if c = '\t' then ['\\', 't']
  else if c.toNat < 0x20 then
    '\\' :: 'u' :: List.leftpad 4 '0' (Nat.toDigits 16 c.toNat)
  else [c]

def escapeInto (value : Str) : Str :=
  value.flatMap escapeChar

/-- `"key":"value",` with the trailing comma. -/
def fieldStr (key value : Str) : Str :=
  '"' :: (key ++ "\":\"".toList ++ escapeInto value ++ "\",".toList)

/-- A quoted, escaped string on its own. -/
def quoted (value : Str) : Str :=
  '"' :: (escapeInto value ++ ['"'])

/-! ## Reading back -/

theorem leftpad_toDigits : ∀ n < 32,
    List.leftpad 4 '0' (Nat.toDigits 16 n) =
      ['0', '0', Nat.digitChar (n / 16), Nat.digitChar (n % 16)] := by
  decide

/-- How one character is escaped. -/
theorem escapes_escapeChar (c : Char) : Json.Escapes c (escapeChar c) := by
  unfold escapeChar
  split_ifs with hquote hbackslash hnewline hreturn htab hcontrol
  · subst hquote
    exact .short (by decide) (by decide) rfl
  · subst hbackslash
    exact .short (by decide) (by decide) rfl
  · subst hnewline
    exact .short (by decide) (by decide) rfl
  · subst hreturn
    exact .short (by decide) (by decide) rfl
  · subst htab
    exact .short (by decide) (by decide) rfl
  · rw [leftpad_toDigits _ hcontrol]
    exact .unit hcontrol
  · exact .plain hbackslash hquote (Nat.le_of_not_lt hcontrol)

theorem quotes_escapeChar : Quotes escapeChar Json.readChar :=
  Json.quotes_of_escapes escapes_escapeChar

theorem renders_quoted (value : Str) :
    Json.Renders (quoted value) (.string value) 1 :=
  Json.renders_string quotes_escapeChar value

theorem memberText_of_key {key : Str} (h : escapeInto key = key) (text : Str) :
    Json.memberText escapeChar key text = '"' :: (key ++ '"' :: ':' :: text) :=
  by rw [Json.memberText, ← escapeInto, h]

/-! ## Control characters -/

theorem printable_decimal (n : ℕ) : Printable (decimal n) := by
  refine printable_iff.mpr fun c hc => ?_
  have hdigit := isDigit_of_mem_decimal hc
  rw [Char.isDigit, Bool.and_eq_true, decide_eq_true_iff] at hdigit
  exact Nat.le_trans (by decide) (UInt32.le_iff_toNat_le.mp hdigit.1)

/-- No control character is left. -/
theorem printable_escapeInto (value : Str) : Printable (escapeInto value) :=
  Json.printable_flatMap escapes_escapeChar value

theorem printable_fieldStr {key : Str} (hkey : Printable key) (value : Str) :
    Printable (fieldStr key value) := by
  simp only [fieldStr, printable_cons, printable_append]
  exact ⟨by decide, ⟨⟨hkey, by decide⟩, printable_escapeInto value⟩, by decide⟩

end Harmost.Telemetry
