import Mathlib.Data.List.Basic

/-!
# Keys of the panel

The key codes of keys.h. A code that is none of them, such as that of two
keys pressed together or 0 for no key, is a key event like any other.
-/

namespace BT816Display.Keys

/-- KEY_LEFT. -/
abbrev keyLeft : UInt16 := 0x1000

/-- KEY_UP. -/
abbrev keyUp : UInt16 := 0x0004

/-- KEY_DOWN. -/
abbrev keyDown : UInt16 := 0x0002

/-- KEY_RIGHT. -/
abbrev keyRight : UInt16 := 0x0010

/-- KEY_0. -/
abbrev key0 : UInt16 := 0x0100

/-- KEY_1. -/
abbrev key1 : UInt16 := 0x8000

/-- KEY_2. -/
abbrev key2 : UInt16 := 0x0800

/-- KEY_3. -/
abbrev key3 : UInt16 := 0x0080

/-- KEY_4. -/
abbrev key4 : UInt16 := 0x4000

/-- KEY_5. -/
abbrev key5 : UInt16 := 0x0400

/-- KEY_6. -/
abbrev key6 : UInt16 := 0x0040

/-- KEY_7. -/
abbrev key7 : UInt16 := 0x2000

/-- KEY_8. -/
abbrev key8 : UInt16 := 0x0200

/-- KEY_9. -/
abbrev key9 : UInt16 := 0x0020

/-- KEY_ENTER. -/
abbrev keyEnter : UInt16 := 0x0001

/-- KEY_EXIT. -/
abbrev keyExit : UInt16 := 0x0008

/-- The digit of a key: the cases KEY_0 to KEY_9 of the editors. -/
def digit (key : UInt16) : Option UInt8 :=
  if key=key0 then some 0
  else if key=key1 then some 1
  else if key=key2 then some 2
  else if key=key3 then some 3
  else if key=key4 then some 4
  else if key=key5 then some 5
  else if key=key6 then some 6
  else if key=key7 then some 7
  else if key=key8 then some 8
  else if key=key9 then some 9
  else none

/-- One more key with a digit up to 9. -/
theorem le_nine_of_ite {c : Prop} [Decidable c] {o : Option UInt8} {d num : UInt8}
    (hd : d.toNat≤9) (ho : o=some num → num.toNat≤9) (h : (if c then some d else o)=some num) :
    num.toNat≤9 := by
  split at h
  · cases h
    exact hd
  · exact ho h

theorem digit_le {key : UInt16} {num : UInt8} (h : digit key=some num) : num.toNat≤9 := by
  unfold digit at h
  revert h
  iterate 10 refine le_nine_of_ite (by decide) ?_
  exact nofun

/-- A key that is no digit. -/
theorem digit_of_move {key : UInt16} (h : key=keyLeft ∨ key=keyEnter ∨ key=keyRight) :
    digit key=none := by
  rcases h with rfl|rfl|rfl <;> decide

/-- A key as a static prev_key of eight bits keeps it: all keys above 0x80
are kept as 0, so holding one of them looks like pressing it again. -/
def kept (key : UInt16) : UInt16 := key&&&0xFF

end BT816Display.Keys
