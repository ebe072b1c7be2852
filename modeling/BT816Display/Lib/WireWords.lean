import BT816Display.Lib.BigEndian

/-!
# Words on a wire of bytes

A stream of words as bytes, lowest byte first, and the grouping of a stream of
bytes into words. The two are inverse on whole words. A string on the wire is
ended by zeros that fill its last word, and at least one zero.
-/

namespace BT816Display.WireWords

open BigEndian

/-- The bytes of a word, lowest first. -/
def wireBytes (w : UInt32) : List UInt8 :=
  [(w&&&0xFF).toUInt8,((w>>>8)&&&0xFF).toUInt8,((w>>>16)&&&0xFF).toUInt8,
    ((w>>>24)&&&0xFF).toUInt8]

/-- The word of four bytes, lowest first. -/
def wireWord (b0 b1 b2 b3 : UInt8) : UInt32 := join32 b3 b2 b1 b0

/-- The whole words of a stream of bytes. -/
def words : List UInt8 → List UInt32
  | b0::b1::b2::b3::rest => wireWord b0 b1 b2 b3::words rest
  | _ => []

@[simp] theorem wireBytes_length (w : UInt32) : (wireBytes w).length=4 := rfl

/-- The bytes of a word of four bytes. -/
theorem wireBytes_wireWord (b0 b1 b2 b3 : UInt8) :
    wireBytes (wireWord b0 b1 b2 b3)=[b0,b1,b2,b3] := by
  have h0 := b0.toNat_lt
  have h1 := b1.toNat_lt
  have h2 := b2.toNat_lt
  have h3 := b3.toNat_lt
  have hw := join32_toNat b3 b2 b1 b0
  have hlow := byte32_toNat (join32 b3 b2 b1 b0) 0 (by decide)
  simp only [UInt32.shiftRight_zero,UInt32.toNat_zero,pow_zero,Nat.div_one] at hlow
  have hc24 : (24 : UInt32).toNat=24 := rfl
  have hc16 : (16 : UInt32).toNat=16 := rfl
  have hc8 : (8 : UInt32).toNat=8 := rfl
  have hb8 := byte32_toNat (join32 b3 b2 b1 b0) 8 (by decide)
  have hb16 := byte32_toNat (join32 b3 b2 b1 b0) 16 (by decide)
  have hb24 := byte32_toNat (join32 b3 b2 b1 b0) 24 (by decide)
  rw [hw] at hlow hb8 hb16 hb24
  rw [hc8] at hb8
  rw [hc16] at hb16
  rw [hc24] at hb24
  simp only [Nat.reducePow] at hb8 hb16 hb24
  have e0 : (join32 b3 b2 b1 b0&&&0xFF).toUInt8=b0 := UInt8.toNat_inj.mp (by omega)
  have e1 : ((join32 b3 b2 b1 b0>>>8)&&&0xFF).toUInt8=b1 := UInt8.toNat_inj.mp (by omega)
  have e2 : ((join32 b3 b2 b1 b0>>>16)&&&0xFF).toUInt8=b2 := UInt8.toNat_inj.mp (by omega)
  have e3 : ((join32 b3 b2 b1 b0>>>24)&&&0xFF).toUInt8=b3 := UInt8.toNat_inj.mp (by omega)
  rw [wireBytes,wireWord,e0,e1,e2,e3]

/-- The words of the bytes of a word and more. -/
@[simp] theorem words_wireBytes_append (w : UInt32) (rest : List UInt8) :
    words (wireBytes w++rest)=w::words rest :=
  congrArg (·::words rest) (join32_split32 w)

/-- Grouping the bytes of words gives the words back. -/
theorem words_flatMap_wireBytes (ws : List UInt32) : words (ws.flatMap wireBytes)=ws := by
  induction ws with
  | nil => rfl
  | cons w ws ih => rw [List.flatMap_cons,words_wireBytes_append,ih]

/-- The bytes of the words of a whole number of words. -/
theorem flatMap_wireBytes_words {bytes : List UInt8} (h : bytes.length%4=0) :
    (words bytes).flatMap wireBytes=bytes := by
  induction bytes using words.induct with
  | case1 b0 b1 b2 b3 rest ih =>
    rw [words,List.flatMap_cons,wireBytes_wireWord,ih (by simp only [List.length_cons] at h; omega)]
    rfl
  | case2 bytes hshort =>
    cases bytes with
    | nil => rfl
    | cons b0 bytes =>
      rcases bytes with _ | ⟨b1,_ | ⟨b2,_ | ⟨b3,rest⟩⟩⟩
      · exact absurd h (by simp)
      · exact absurd h (by simp)
      · exact absurd h (by simp)
      · exact absurd rfl (hshort b0 b1 b2 b3 rest)

/-! ## Strings -/

/-- A string of the wire: its bytes, then zeros up to the word boundary. -/
def terminated (s : List UInt8) : List UInt8 := s++List.replicate (4-s.length%4) 0

/-- A terminated string is a whole number of words. -/
theorem terminated_length_mod (s : List UInt8) : (terminated s).length%4=0 := by
  rw [terminated,List.length_append,List.length_replicate]
  omega

/-- Read the bytes up to the first zero and skip to the word boundary. -/
def parseText : List UInt32 → Option (List UInt8×List UInt32)
  | [] => none
  | w::rest =>
    let s := (wireBytes w).takeWhile (·≠0)
    if s.length<4 then some (s,rest)
    else (parseText rest).map fun (t,rest) => (s++t,rest)

/-- A string with no zero is read back from its words. -/
theorem parseText_terminated {s : List UInt8} (h : ∀ b∈s,b≠0) (rest : List UInt32) :
    parseText (words (terminated s)++rest)=some (s,rest) := by
  induction s using words.induct with
  | case1 b0 b1 b2 b3 tail ih =>
    simp only [List.forall_mem_cons] at h
    obtain ⟨h0,h1,h2,h3,ht⟩ := h
    have hwords : words (terminated (b0::b1::b2::b3::tail))=
        wireWord b0 b1 b2 b3::words (terminated tail) := by
      have hlen : (b0::b1::b2::b3::tail).length%4=tail.length%4 := by
        simp only [List.length_cons]
        omega
      rw [terminated,hlen]
      rfl
    rw [hwords,List.cons_append,parseText,wireBytes_wireWord]
    simp [h0,h1,h2,h3,ih ht]
  | case2 s hshort =>
    -- At most three bytes: they share the last word with the zeros.
    rcases s with _ | ⟨b0,_ | ⟨b1,_ | ⟨b2,_ | ⟨b3,tail⟩⟩⟩⟩
    · rfl
    · simp only [List.forall_mem_cons] at h
      change parseText (wireWord b0 0 0 0::rest)=_
      rw [parseText,wireBytes_wireWord]
      simp [h.1]
    · simp only [List.forall_mem_cons] at h
      change parseText (wireWord b0 b1 0 0::rest)=_
      rw [parseText,wireBytes_wireWord]
      simp [h.1,h.2.1]
    · simp only [List.forall_mem_cons] at h
      change parseText (wireWord b0 b1 b2 0::rest)=_
      rw [parseText,wireBytes_wireWord]
      simp [h.1,h.2.1,h.2.2.1]
    · exact absurd rfl (hshort b0 b1 b2 b3 tail)

end BT816Display.WireWords
