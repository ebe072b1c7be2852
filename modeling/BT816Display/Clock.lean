import Mathlib.Data.Nat.Basic

/-!
# Calendar time as seconds, from cur_time.c

The archive stamps its records and page pointers with the 32-bit number of
seconds since the first of January 2001. The arithmetic is that of the C
code: signed 32-bit terms added into an unsigned 32-bit word.
-/

namespace BT816Display.Clock

/-- The fields of the calendar register that the conversion reads. -/
structure ErtcTime where
  /-- Years since 2000. -/
  year : UInt8
  /-- Month, January being 1. -/
  month : UInt8
  /-- Day of the month. -/
  day : UInt8
  /-- Hour of the day. -/
  hour : UInt8
  /-- Minute. -/
  min : UInt8
  /-- Second. -/
  sec : UInt8
  deriving DecidableEq

/-- Julian day number of the first of January 2001. -/
def jd0 : ℤ := 2451911

/-- Seconds since the first of January 2001, modulo 2^32. -/
def timeToUint32 (t : ErtcTime) : UInt32 :=
  let a : UInt8 := UInt8.ofInt (Int.tdiv (14-t.month.toNat) 12)
  let y : UInt16 := UInt16.ofInt (t.year.toNat+2000+4800-a.toNat)
  let m : UInt8 := UInt8.ofInt (t.month.toNat+12*a.toNat-3)
  let jdn : UInt32 := t.day.toUInt32
  let jdn := jdn+UInt32.ofInt (Int.tdiv (153*m.toNat+2) 5)
  let jdn := jdn+UInt32.ofInt (365*y.toNat)
  let jdn := jdn+UInt32.ofInt (Int.tdiv y.toNat 4)
  let jdn := jdn+UInt32.ofInt (Int.tdiv (-y.toNat) 100)
  let jdn := jdn+UInt32.ofInt (Int.tdiv y.toNat 400)
  let jdn := jdn-32045
  let jdn := jdn-UInt32.ofInt jd0
  let jdn := jdn*86400
  let jdn := jdn+UInt32.ofInt (t.hour.toNat*3600)
  let jdn := jdn+UInt32.ofInt (t.min.toNat*60)
  jdn+t.sec.toUInt32

/-- The epoch: this date reads as zero seconds. -/
example : timeToUint32 ⟨1,1,1,0,0,0⟩=0 := by decide

/-- The date that init_cur_time sets after a loss of the battery domain. -/
example : timeToUint32 ⟨23,5,23,0,0,0⟩=706492800 := by decide

end BT816Display.Clock
