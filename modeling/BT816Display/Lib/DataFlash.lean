import BT816Display.Lib.ByteMemory

/-!
# A flash of pages behind a buffer

The chip is written through a buffer of one page, which it programs with a
built-in erase when its select line goes high. It answers nothing but its
status while it does so, and takes no command that begins in this time. Every
byte on the line takes one unit of time.
-/

namespace BT816Display.DataFlash

open ByteMemory

/-- What a line without a driver reads as. -/
abbrev released : UInt8 := 0xFF

/-- The constants of a chip. -/
structure Geometry where
  /-- Bytes of a page. -/
  page : ℕ
  /-- Pages of the array, at which addresses wrap. -/
  pages : ℕ
  /-- The first status byte; its highest bit is the ready bit. -/
  status : UInt8
  /-- The second status byte, with a ready bit too. -/
  status2 : UInt8

/-- The chip between two selections. -/
structure Core where
  /-- The array. -/
  mem : Mem UInt8
  /-- The buffer. -/
  buffer : Mem UInt8
  /-- Time until the operation in progress ends. -/
  busy : ℕ
  /-- Operations started since power-up. -/
  started : ℕ

/-- A selection in progress. -/
structure Selection where
  /-- The chip was ready for the first byte. -/
  taken : Bool
  /-- The bytes received. -/
  bytes : List UInt8

/-- The chip on the bus. -/
structure Device where
  /-- Everything but the line. -/
  core : Core
  /-- The selection, while the line is low. -/
  line : Option Selection

/-- The address in three bytes of a command. -/
def address (g : Geometry) (h m l : UInt8) : ℕ :=
  ((h.toNat*256+m.toNat)*256+l.toNat)%(g.page*g.pages)

/-- Time passes. -/
def Core.wait (k : Core) (n : ℕ) : Core := {k with busy := k.busy-n}

/-- A status byte: the ready bit before the others. -/
def Core.status (k : Core) (others : UInt8) : UInt8 :=
  (if k.busy=0 then 0x80 else 0)|||(others&&&0x7F)

/-- The byte that the chip sends after the bytes of a selection. -/
def Core.answer (g : Geometry) (k : Core) (taken : Bool) : List UInt8 → UInt8
  | op::rest =>
    if op=0xD7 then k.status (if rest.length%2=0 then g.status else g.status2)
    else if taken=false then released
    else match rest with
      | h::m::l::_::_::_::_::more =>
        -- the end of the page is followed by its beginning
        let a := address g h m l
        if op=0xD2 then k.mem (a/g.page*g.page+(a+more.length)%g.page) else released
      | _ => released
  | [] => released

/-- Bytes into a buffer of a page, which wraps. -/
def fill (page : ℕ) : ℕ → List UInt8 → Mem UInt8 → Mem UInt8
  | _,[],buffer => buffer
  | a,b::bs,buffer => fill page (a+1) bs (Function.update buffer (a%page) b)

/-- What the chip does with the bytes of a selection when it ends. -/
def Core.execute (g : Geometry) (T : ℕ → ℕ) (k : Core) (taken : Bool) : List UInt8 → Core
  | op::h::m::l::data =>
    if taken=true ∧ op=0x82 then
      let a := address g h m l
      let buffer := fill g.page (a%g.page) data k.buffer
      ⟨store k.mem (a/g.page*g.page) (load buffer 0 g.page),buffer,T k.started,k.started+1⟩
    else k
  | _ => k

/-- The line goes low. -/
def Device.select (c : Device) : Device := {c with line := some (c.line.getD ⟨true,[]⟩)}

/-- The line goes high; `T` has the times that the operations take. -/
def Device.deselect (g : Geometry) (T : ℕ → ℕ) (c : Device) : Device :=
  ⟨c.line.elim c.core fun s => c.core.execute g T s.taken s.bytes,none⟩

/-- A byte in each direction. -/
def Device.exchange (g : Geometry) (c : Device) (b : UInt8) : UInt8×Device :=
  match c.line with
  | none => (released,⟨c.core.wait 1,none⟩)
  | some s =>
    let taken := if s.bytes=[] then decide (c.core.busy=0) else s.taken
    (c.core.answer g taken s.bytes,⟨c.core.wait 1,some ⟨taken,s.bytes++[b]⟩⟩)

/-- Bytes in both directions, one after the other. -/
def Device.transfer (g : Geometry) : List UInt8 → Device → List UInt8×Device
  | [],c => ([],c)
  | b::bs,c =>
    let (a,c) := c.exchange g b
    let (as,c) := Device.transfer g bs c
    (a::as,c)

/-! ## A chip that is ready -/

variable {g : Geometry} {T : ℕ → ℕ} {k : Core}

@[simp] theorem Core.wait_busy (k : Core) (n : ℕ) : (k.wait n).busy=k.busy-n := rfl

@[simp] theorem Core.wait_wait (k : Core) (n n' : ℕ) : (k.wait n).wait n'=k.wait (n+n') := by
  unfold Core.wait
  rw [Nat.sub_sub]

/-- Waiting changes nothing but how long the chip is busy. -/
theorem Core.wait_of_ready (h : k.busy=0) (n : ℕ) : k.wait n=k := by
  unfold Core.wait
  rw [h,Nat.zero_sub,←h]

/-- A chip that is ready keeps all bytes of a selection and answers each of them. -/
theorem transfer_taken (h : k.busy=0) (bytes bs : List UInt8) :
    Device.transfer g bs ⟨k,some ⟨true,bytes⟩⟩=
      ((List.range bs.length).map fun i => k.answer g true (bytes++bs.take i),
        ⟨k,some ⟨true,bytes++bs⟩⟩) := by
  induction bs generalizing bytes with
  | nil => rw [List.append_nil]; rfl
  | cons b bs ih =>
    have htaken : (if bytes=[] then decide (k.busy=0) else true)=true := by
      rw [h]
      split <;> rfl
    have hrest := ih (bytes++[b])
    simp only [Device.transfer,Device.exchange,htaken,Core.wait_of_ready h,hrest,List.length_cons,
      List.range_succ_eq_map,List.map_cons,List.map_map,List.append_assoc,List.singleton_append,
      List.take_zero,List.append_nil]
    rfl

/-! ## Pages -/

theorem store_nil (m : Mem UInt8) (a : ℕ) : store m a []=m := by
  funext x
  exact store_apply_of_not (by rw [List.length_nil]; omega)

theorem store_singleton (m : Mem UInt8) (a : ℕ) (b : UInt8) :
    store m a [b]=Function.update m a b := by
  funext x
  by_cases hx : x=a
  · rw [hx,Function.update_self,store_apply_of_lt le_rfl (by simp)]
    simp
  · rw [Function.update_of_ne hx,store_apply_of_not (by rw [List.length_singleton]; omega)]

/-- What fits into the buffer is stored there. -/
theorem fill_eq_store {page a : ℕ} {bs : List UInt8} (h : a+bs.length≤page) (buffer : Mem UInt8) :
    fill page a bs buffer=store buffer a bs := by
  induction bs generalizing a buffer with
  | nil => rw [fill,store_nil]
  | cons b bs ih =>
    rw [List.length_cons] at h
    have happend := store_store_append buffer a [b] bs
    rw [fill,Nat.mod_eq_of_lt (by omega),ih (by omega),←store_singleton]
    exact happend

end BT816Display.DataFlash
