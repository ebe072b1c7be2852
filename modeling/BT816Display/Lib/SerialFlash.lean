import BT816Display.Lib.PagedFlash

/-!
# A NOR flash behind a serial bus

The chip takes bytes while its select line is low and executes what it was
sent when the line goes high. Programming and erasing need the write enable
latch and keep the chip busy for a number of ticks, in which it answers
nothing but its status and executes nothing.
-/

namespace BT816Display.SerialFlash

open ByteMemory NorFlash PagedFlash

/-- What a line without a driver reads as. -/
abbrev released : UInt8 := 0xFF

/-- The constants of a chip. -/
structure Geometry where
  /-- Bytes of a page. -/
  page : ℕ
  /-- Bytes of a sector. -/
  sector : ℕ
  /-- Bytes of the array, at which reads wrap. -/
  size : ℕ

/-- How many ticks the operations last, by their number since power-up. -/
structure Timing where
  /-- Page programs. -/
  program : ℕ → ℕ
  /-- Sector erases. -/
  erase : ℕ → ℕ

/-- The chip between two selections. -/
structure Core where
  /-- The cells. -/
  mem : Mem UInt8
  /-- Write enable latch. -/
  latch : Bool
  /-- Ticks until the operation in progress ends. -/
  busy : ℕ
  /-- Operations started since power-up. -/
  started : ℕ

/-- The chip on the bus: its bytes of the current selection, if there is one. -/
structure Device where
  /-- Everything but the line. -/
  core : Core
  /-- Bytes received since the line went low. -/
  line : Option (List UInt8)

/-- The address in three bytes of a command. -/
def address (h m l : UInt8) : ℕ := (h.toNat*256+m.toNat)*256+l.toNat

/-- The status byte. -/
def Core.status (k : Core) : UInt8 :=
  (if k.busy=0 then 0 else 1)+(if k.latch=true then 2 else 0)

/-- The byte that the chip sends after the bytes of a selection. -/
def Core.answer (g : Geometry) (k : Core) : List UInt8 → UInt8
  | op::rest =>
    if op=0x05 then k.status
    else if k.busy≠0 then released
    else match rest with
      | h::m::l::more =>
        if op=0x03 then k.mem ((address h m l+more.length)%g.size) else released
      | _ => released
  | [] => released

/-- The commands of one byte. -/
def Core.short (k : Core) (op : UInt8) : Core :=
  if op=0x06 then {k with latch := true}
  else if op=0x04 then {k with latch := false}
  else k

/-- The commands with an address and data. -/
def Core.long (g : Geometry) (T : Timing) (k : Core) (op : UInt8) (a : ℕ) (data : List UInt8) :
    Core :=
  if k.latch=false then k
  else if op=0x02 ∧ data≠[] then
    ⟨program g.page a data k.mem,false,T.program k.started,k.started+1⟩
  else if op=0x20 ∧ data=[] then
    ⟨exec g.sector (.erase (a/g.sector)) k.mem,false,T.erase k.started,k.started+1⟩
  else k

/-- What the chip does with the bytes of a selection when it ends. -/
def Core.execute (g : Geometry) (T : Timing) (k : Core) (bytes : List UInt8) : Core :=
  if k.busy≠0 then k
  else match bytes with
    | [op] => k.short op
    | op::h::m::l::data => k.long g T op (address h m l) data
    | _ => k

/-- Time passes. -/
def Core.wait (k : Core) (n : ℕ) : Core := {k with busy := k.busy-n}

/-- The line goes low. -/
def Device.select (c : Device) : Device := {c with line := some (c.line.getD [])}

/-- The line goes high. -/
def Device.deselect (g : Geometry) (T : Timing) (c : Device) : Device :=
  ⟨c.line.elim c.core (c.core.execute g T),none⟩

/-- A byte in each direction. -/
def Device.exchange (g : Geometry) (c : Device) (b : UInt8) : UInt8×Device :=
  match c.line with
  | none => (released,c)
  | some bytes => (c.core.answer g bytes,{c with line := some (bytes++[b])})

/-- Time passes. -/
def Device.wait (c : Device) (n : ℕ) : Device := {c with core := c.core.wait n}

/-- Bytes in both directions, one after the other. -/
def Device.transfer (g : Geometry) : List UInt8 → Device → List UInt8×Device
  | [],c => ([],c)
  | b::bs,c =>
    let (a,c) := c.exchange g b
    let (as,c) := Device.transfer g bs c
    (a::as,c)

/-! ## Selections -/

variable {g : Geometry} {T : Timing} {k : Core} {bytes bs : List UInt8}

/-- Waiting leaves the memory. -/
@[simp] theorem Core.wait_mem (k : Core) (n : ℕ) : (k.wait n).mem=k.mem := rfl

/-- Waiting leaves the write latch. -/
@[simp] theorem Core.wait_latch (k : Core) (n : ℕ) : (k.wait n).latch=k.latch := rfl

/-- Waiting shortens the busy time. -/
@[simp] theorem Core.wait_busy (k : Core) (n : ℕ) : (k.wait n).busy=k.busy-n := rfl

/-- Waiting leaves what has been started. -/
@[simp] theorem Core.wait_started (k : Core) (n : ℕ) : (k.wait n).started=k.started := rfl

/-- Two waits are one. -/
@[simp] theorem Core.wait_wait (k : Core) (n n' : ℕ) : (k.wait n).wait n'=k.wait (n+n') := by
  unfold Core.wait
  rw [Nat.sub_sub]

/-- Waiting changes nothing but how long the chip is busy. -/
theorem Core.wait_of_idle (h : k.busy=0) (n : ℕ) : k.wait n=k := by
  unfold Core.wait
  rw [h,Nat.zero_sub,←h]

/-- The chip keeps all bytes of a selection and answers each of them. -/
theorem transfer_selected (k : Core) (bytes bs : List UInt8) :
    Device.transfer g bs ⟨k,some bytes⟩=
      ((List.range bs.length).map fun i => k.answer g (bytes++bs.take i),⟨k,some (bytes++bs)⟩) := by
  induction bs generalizing bytes with
  | nil => rw [List.append_nil]; rfl
  | cons b bs ih =>
    have hrest := ih (bytes++[b])
    simp only [Device.transfer,Device.exchange,hrest,List.length_cons,List.range_succ_eq_map,
      List.map_cons,List.map_map,List.append_assoc,List.singleton_append,List.take_zero,
      List.append_nil]
    rfl

/-- A busy chip executes nothing. -/
theorem Core.execute_of_busy (h : k.busy≠0) (bytes : List UInt8) : k.execute g T bytes=k := if_pos h

end BT816Display.SerialFlash
