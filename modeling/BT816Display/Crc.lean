import BT816Display.Lib.ByteMemory

/-!
# Table-driven CRC-16 of crc.c

Both 256-entry tables are the literal ones of the source. The running value
is the pair of the bytes CRCH and CRCL; the returned word is their join, and
every caller splits it into the same two bytes again.
-/

namespace BT816Display.Crc

/-- Table of the bytes that enter CRCH. -/
def crc16H : List UInt8 := [
  0x00,0xC1,0x81,0x40,0x01,0xC0,0x80,0x41,0x01,0xC0,0x80,0x41,0x00,0xC1,0x81,0x40,
  0x01,0xC0,0x80,0x41,0x00,0xC1,0x81,0x40,0x00,0xC1,0x81,0x40,0x01,0xC0,0x80,0x41,
  0x01,0xC0,0x80,0x41,0x00,0xC1,0x81,0x40,0x00,0xC1,0x81,0x40,0x01,0xC0,0x80,0x41,
  0x00,0xC1,0x81,0x40,0x01,0xC0,0x80,0x41,0x01,0xC0,0x80,0x41,0x00,0xC1,0x81,0x40,
  0x01,0xC0,0x80,0x41,0x00,0xC1,0x81,0x40,0x00,0xC1,0x81,0x40,0x01,0xC0,0x80,0x41,
  0x00,0xC1,0x81,0x40,0x01,0xC0,0x80,0x41,0x01,0xC0,0x80,0x41,0x00,0xC1,0x81,0x40,
  0x00,0xC1,0x81,0x40,0x01,0xC0,0x80,0x41,0x01,0xC0,0x80,0x41,0x00,0xC1,0x81,0x40,
  0x01,0xC0,0x80,0x41,0x00,0xC1,0x81,0x40,0x00,0xC1,0x81,0x40,0x01,0xC0,0x80,0x41,
  0x01,0xC0,0x80,0x41,0x00,0xC1,0x81,0x40,0x00,0xC1,0x81,0x40,0x01,0xC0,0x80,0x41,
  0x00,0xC1,0x81,0x40,0x01,0xC0,0x80,0x41,0x01,0xC0,0x80,0x41,0x00,0xC1,0x81,0x40,
  0x00,0xC1,0x81,0x40,0x01,0xC0,0x80,0x41,0x01,0xC0,0x80,0x41,0x00,0xC1,0x81,0x40,
  0x01,0xC0,0x80,0x41,0x00,0xC1,0x81,0x40,0x00,0xC1,0x81,0x40,0x01,0xC0,0x80,0x41,
  0x00,0xC1,0x81,0x40,0x01,0xC0,0x80,0x41,0x01,0xC0,0x80,0x41,0x00,0xC1,0x81,0x40,
  0x01,0xC0,0x80,0x41,0x00,0xC1,0x81,0x40,0x00,0xC1,0x81,0x40,0x01,0xC0,0x80,0x41,
  0x01,0xC0,0x80,0x41,0x00,0xC1,0x81,0x40,0x00,0xC1,0x81,0x40,0x01,0xC0,0x80,0x41,
  0x00,0xC1,0x81,0x40,0x01,0xC0,0x80,0x41,0x01,0xC0,0x80,0x41,0x00,0xC1,0x81,0x40]

/-- Table of the bytes that enter CRCL. -/
def crc16L : List UInt8 := [
  0x00,0xC0,0xC1,0x01,0xC3,0x03,0x02,0xC2,0xC6,0x06,0x07,0xC7,0x05,0xC5,0xC4,0x04,
  0xCC,0x0C,0x0D,0xCD,0x0F,0xCF,0xCE,0x0E,0x0A,0xCA,0xCB,0x0B,0xC9,0x09,0x08,0xC8,
  0xD8,0x18,0x19,0xD9,0x1B,0xDB,0xDA,0x1A,0x1E,0xDE,0xDF,0x1F,0xDD,0x1D,0x1C,0xDC,
  0x14,0xD4,0xD5,0x15,0xD7,0x17,0x16,0xD6,0xD2,0x12,0x13,0xD3,0x11,0xD1,0xD0,0x10,
  0xF0,0x30,0x31,0xF1,0x33,0xF3,0xF2,0x32,0x36,0xF6,0xF7,0x37,0xF5,0x35,0x34,0xF4,
  0x3C,0xFC,0xFD,0x3D,0xFF,0x3F,0x3E,0xFE,0xFA,0x3A,0x3B,0xFB,0x39,0xF9,0xF8,0x38,
  0x28,0xE8,0xE9,0x29,0xEB,0x2B,0x2A,0xEA,0xEE,0x2E,0x2F,0xEF,0x2D,0xED,0xEC,0x2C,
  0xE4,0x24,0x25,0xE5,0x27,0xE7,0xE6,0x26,0x22,0xE2,0xE3,0x23,0xE1,0x21,0x20,0xE0,
  0xA0,0x60,0x61,0xA1,0x63,0xA3,0xA2,0x62,0x66,0xA6,0xA7,0x67,0xA5,0x65,0x64,0xA4,
  0x6C,0xAC,0xAD,0x6D,0xAF,0x6F,0x6E,0xAE,0xAA,0x6A,0x6B,0xAB,0x69,0xA9,0xA8,0x68,
  0x78,0xB8,0xB9,0x79,0xBB,0x7B,0x7A,0xBA,0xBE,0x7E,0x7F,0xBF,0x7D,0xBD,0xBC,0x7C,
  0xB4,0x74,0x75,0xB5,0x77,0xB7,0xB6,0x76,0x72,0xB2,0xB3,0x73,0xB1,0x71,0x70,0xB0,
  0x50,0x90,0x91,0x51,0x93,0x53,0x52,0x92,0x96,0x56,0x57,0x97,0x55,0x95,0x94,0x54,
  0x9C,0x5C,0x5D,0x9D,0x5F,0x9F,0x9E,0x5E,0x5A,0x9A,0x9B,0x5B,0x99,0x59,0x58,0x98,
  0x88,0x48,0x49,0x89,0x4B,0x8B,0x8A,0x4A,0x4E,0x8E,0x8F,0x4F,0x8D,0x4D,0x4C,0x8C,
  0x44,0x84,0x85,0x45,0x87,0x47,0x46,0x86,0x82,0x42,0x43,0x83,0x41,0x81,0x80,0x40]

/-- One round of the table loop on the pair (CRCH,CRCL). -/
def crcStep (crc : UInt8×UInt8) (byte : UInt8) : UInt8×UInt8 :=
  let i := crc.1^^^byte
  (crc.2^^^crc16H.getD i.toNat 0,crc16L.getD i.toNat 0)

/-- The pair (CRCH,CRCL) after the loop over a block of bytes. -/
def crcBytes (bs : List UInt8) : UInt8×UInt8 := bs.foldl crcStep (0xFF,0xFF)

/-- The checksum word, CRCH above CRCL. -/
def getCRC16 (bs : List UInt8) : UInt32 :=
  let crc := crcBytes bs
  (crc.1.toUInt32<<<8)|||crc.2.toUInt32

/-- The comparison of a stored checksum that every reader of the archive
makes: high byte against `h`, low byte against `l`. -/
def crcMatches (bs : List UInt8) (h l : UInt8) : Bool :=
  let crc := (getCRC16 bs).toUInt16
  ((crc>>>8)&&&0xFF)==h.toUInt16 && (crc&&&0xFF)==l.toUInt16

/-- Joining two bytes into a word is place value. -/
theorem join_toUInt16_toNat (a b : UInt8) :
    ((a.toUInt32<<<8)|||b.toUInt32).toUInt16.toNat=a.toNat*256+b.toNat := by
  have ha := a.toNat_lt
  have hb := b.toNat_lt
  have hj := Nat.shiftLeft_add_eq_or_of_lt (i:=8) (b:=b.toNat) (by omega) a.toNat
  simp only [Nat.shiftLeft_eq,Nat.reducePow] at hj
  simp [Nat.shiftLeft_eq]
  rw [Nat.mod_eq_of_lt (by omega : a.toNat*256<65536),←hj]

/-- The high byte of the checksum word is CRCH. -/
theorem getCRC16_hi (bs : List UInt8) :
    ((getCRC16 bs).toUInt16>>>8).toUInt8=(crcBytes bs).1 := by
  have ha := (crcBytes bs).1.toNat_lt
  have hb := (crcBytes bs).2.toNat_lt
  apply UInt8.toNat_inj.mp
  simp only [getCRC16,UInt16.toNat_toUInt8,UInt16.toNat_shiftRight,join_toUInt16_toNat,
    Nat.shiftRight_eq_div_pow]
  simp
  omega

/-- The low byte of the checksum word is CRCL. -/
theorem getCRC16_lo (bs : List UInt8) : (getCRC16 bs).toUInt16.toUInt8=(crcBytes bs).2 := by
  have hb := (crcBytes bs).2.toNat_lt
  apply UInt8.toNat_inj.mp
  simp only [getCRC16,UInt16.toNat_toUInt8,join_toUInt16_toNat]
  omega

/-- Masking a word by 0xFF keeps its low byte. -/
theorem and_255_eq_iff (w : UInt16) (b : UInt8) : w&&&0xFF=b.toUInt16 ↔ w.toUInt8=b := by
  have hw := Nat.and_two_pow_sub_one_eq_mod w.toNat 8
  norm_num at hw
  rw [←UInt16.toNat_inj,←UInt8.toNat_inj,UInt16.toNat_and,UInt16.toNat_toUInt8]
  simp [hw]

/-- Masking a word by 0xFF before cutting it to a byte changes nothing. -/
theorem and_255_toUInt8 (w : UInt16) : (w&&&0xFF).toUInt8=w.toUInt8 := by
  rw [(and_255_eq_iff w w.toUInt8).mpr rfl]
  exact UInt8.toUInt8_toUInt16 _

/-- A stored checksum is accepted exactly when it is the pair of bytes that
the table loop computes. -/
theorem crcMatches_iff (bs : List UInt8) (h l : UInt8) :
    crcMatches bs h l=true ↔ crcBytes bs=(h,l) := by
  simp only [crcMatches,Bool.and_eq_true,beq_iff_eq,and_255_eq_iff,getCRC16_hi,getCRC16_lo,
    Prod.ext_iff]

end BT816Display.Crc
