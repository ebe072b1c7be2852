import BT816Display.Lib.ByteMemory
import BT816Display.Lib.WireWords

/-!
# The serial port of bt816_spi.c

The routines as the events they cause on the port. A transfer is started with
an instruction byte and a counter of the data bytes behind it; it is finished
when exactly so many bytes were written, and the chip takes the bytes clocked
out between chip select and deselect as one session. The port is taken to be
ready for every byte, so the waits for a place in its FIFO are left out.
-/

namespace BT816Display.Bt816Spi

open ByteMemory WireWords

/-- What a routine does to the port. -/
inductive Event where
  /-- bt816_cs_set. -/
  | csSet
  /-- bt816_cs_clear. -/
  | csClear
  /-- qspi_cmd_operation_kick. -/
  | kick (instructionCode : UInt8) (dataCounter : UInt32)
  /-- qspi_byte_write. -/
  | byteWrite (data : UInt8)
  /-- The wait for QSPI_CMDSTS_FLAG and its clearing. -/
  | waitCmdsts
  /-- bt816_spi_send_cmd_and_receive_array: a transfer whose data are read. -/
  | receive (cmd : UInt8) (cnt : UInt32)
  deriving DecidableEq

/-- bt816_spi_transmit. -/
def bt816SpiTransmit (data : UInt8) : List Event := [.kick data 0,.waitCmdsts]

/-- bt816_spi_transmit_32, lowest byte first. -/
def bt816SpiTransmit32 (value : UInt32) : List Event :=
  bt816SpiTransmit (value&&&0xFF).toUInt8++bt816SpiTransmit ((value>>>8)&&&0xFF).toUInt8++
    bt816SpiTransmit ((value>>>16)&&&0xFF).toUInt8++bt816SpiTransmit ((value>>>24)&&&0xFF).toUInt8

/-- bt816_spi_transmit_array_with_padding on the memory behind `ptr`. -/
def bt816SpiTransmitArrayWithPadding (mem : Mem UInt8) (cnt : UInt32) (ptr : ℕ) : List Event :=
  if cnt≠0 then
    let length := (cnt+3)&&&~~~3
    let length := length-1
    let cnt := cnt-1
    [.kick (mem ptr) length]++
      (List.range cnt.toNat).map (fun i => .byteWrite (mem (ptr+1+i)))++
      List.replicate (length.toNat-cnt.toNat) (.byteWrite 0)++
      [.waitCmdsts]
  else []

/-! ## The chip's side of the port -/

/-- The port as the chip sees it. It takes every byte that a transfer awaits. -/
structure Port where
  /-- The chip is selected. -/
  selected : Bool
  /-- Bytes that a started transfer still takes. -/
  awaited : Option ℕ
  /-- Bytes of the open session. -/
  session : List UInt8
  /-- Sessions closed so far. -/
  sessions : List (List UInt8)

/-- One byte on the wire, seen by a selected chip. -/
def Port.clock (s : Port) (byte : UInt8) : Port :=
  if s.selected then {s with session := s.session++[byte]} else s

/-- The effect of an event; none when the routine would wait for ever or
writes a byte that no transfer takes. -/
def Port.step (s : Port) : Event → Option Port
  | .csSet => some {s with selected := true}
  | .csClear =>
    some (if s.selected then
      {s with selected := false,session := [],sessions := s.sessions++[s.session]} else s)
  | .kick instructionCode dataCounter =>
    match s.awaited with
    | none => some {s.clock instructionCode with awaited := some dataCounter.toNat}
    | some _ => none
  | .byteWrite data =>
    match s.awaited with
    | some (n+1) => some {s.clock data with awaited := some n}
    | _ => none
  | .waitCmdsts =>
    match s.awaited with
    | some 0 => some {s with awaited := none}
    | _ => none
  | .receive cmd _ =>
    -- The data behind the instruction come from the chip.
    match s.awaited with
    | none => some (s.clock cmd)
    | some _ => none

/-- A run of events. -/
def Port.run (s : Port) (events : List Event) : Option Port := events.foldlM Port.step s

/-- The port between two sessions. -/
def Port.closed (sessions : List (List UInt8)) : Port := ⟨false,none,[],sessions⟩

/-- The port in an open session with no transfer running. -/
def Port.inSession (session : List UInt8) (sessions : List (List UInt8)) : Port :=
  ⟨true,none,session,sessions⟩

/-- The sessions of a routine that finishes. -/
def sessionsOf (events : List Event) : Option (List (List UInt8)) :=
  ((Port.closed []).run events).map Port.sessions

/-- The bytes that a routine inside a session clocks out, when it finishes. -/
def bytesOf (events : List Event) : Option (List UInt8) :=
  ((Port.inSession [] []).run events).map Port.session

/-! ## What the routines clock out -/

/-- Events in sequence. -/
theorem run_append (s : Port) (as bs : List Event) :
    s.run (as++bs)=(s.run as).bind fun t => t.run bs := List.foldlM_append

/-- No event leaves the port as it is. -/
theorem run_nil (s : Port) : s.run []=some s := rfl

/-- The events send the bytes in whatever session they are run. -/
def Sends (events : List Event) (bytes : List UInt8) : Prop :=
  ∀ session sessions,(Port.inSession session sessions).run events=
    some (Port.inSession (session++bytes) sessions)

/-- Nothing sends nothing. -/
theorem sends_nil : Sends [] [] := by
  intro session sessions
  rw [List.append_nil]
  exact run_nil _

/-- Bytes are sent in the order of the events. -/
theorem Sends.append {as bs : List Event} {xs ys : List UInt8} (ha : Sends as xs)
    (hb : Sends bs ys) : Sends (as++bs) (xs++ys) := by
  intro session sessions
  rw [run_append,ha,Option.bind_some,hb,List.append_assoc]

/-- Rounds that each send their bytes. -/
theorem sends_flatMap {ι : Type*} {f : ι → List Event} {g : ι → List UInt8}
    (h : ∀ i,Sends (f i) (g i)) (rounds : List ι) : Sends (rounds.flatMap f) (rounds.flatMap g) := by
  induction rounds with
  | nil => exact sends_nil
  | cons i rounds ih =>
    rw [List.flatMap_cons,List.flatMap_cons]
    exact (h i).append ih

/-- bt816_spi_transmit sends its byte. -/
theorem sends_transmit (data : UInt8) : Sends (bt816SpiTransmit data) [data] := by
  intro session sessions
  rfl

/-- Of a transfer that is read, the instruction is sent. -/
theorem sends_receive (cmd : UInt8) (cnt : UInt32) : Sends [.receive cmd cnt] [cmd] := by
  intro session sessions
  rfl

/-- bt816_spi_transmit_32 sends the bytes of a word, the lowest first. -/
theorem sends_transmit32 (value : UInt32) : Sends (bt816SpiTransmit32 value) (wireBytes value) :=
  (((sends_transmit _).append (sends_transmit _)).append (sends_transmit _)).append
    (sends_transmit _)

/-- A started transfer takes the bytes it waits for. -/
theorem run_byteWrites (bytes : List UInt8) (n : ℕ) (session : List UInt8)
    (sessions : List (List UInt8)) :
    ({Port.inSession session sessions with awaited := some (bytes.length+n)}).run
        (bytes.map Event.byteWrite)=
      some {Port.inSession (session++bytes) sessions with awaited := some n} := by
  induction bytes generalizing session with
  | nil => simp [Port.run,Port.inSession]
  | cons b bytes ih =>
    have hstep : ({Port.inSession session sessions with
        awaited := some ((b::bytes).length+n)} : Port).step (.byteWrite b)=
        some {Port.inSession (session++[b]) sessions with awaited := some (bytes.length+n)} := by
      rw [List.length_cons,Nat.add_right_comm]
      rfl
    have h := ih (session++[b])
    rw [List.append_assoc] at h
    rw [List.map_cons,Port.run,List.foldlM_cons,hstep]
    exact h

/-- A transfer with the right counter sends its instruction and its data. -/
theorem sends_transfer (instructionCode : UInt8) (dataCounter : UInt32) (bytes : List UInt8)
    (h : dataCounter.toNat=bytes.length) :
    Sends ([.kick instructionCode dataCounter]++bytes.map .byteWrite++[.waitCmdsts])
      (instructionCode::bytes) := by
  intro session sessions
  have hk : (Port.inSession session sessions).run [.kick instructionCode dataCounter]=
      some {Port.inSession (session++[instructionCode]) sessions with
        awaited := some (bytes.length+0)} := by
    rw [Nat.add_zero,← h]
    rfl
  rw [run_append,run_append,hk,Option.bind_some,run_byteWrites,Option.bind_some,List.append_assoc]
  rfl

/-- The events send whole sessions. -/
def SendsSessions (events : List Event) (sent : List (List UInt8)) : Prop :=
  ∀ sessions,(Port.closed sessions).run events=some (Port.closed (sessions++sent))

/-- No event makes no session. -/
theorem sendsSessions_nil : SendsSessions [] [] := by
  intro sessions
  rw [List.append_nil]
  exact run_nil _

/-- Sessions come in the order of the events. -/
theorem SendsSessions.append {as bs : List Event} {xs ys : List (List UInt8)}
    (ha : SendsSessions as xs) (hb : SendsSessions bs ys) : SendsSessions (as++bs) (xs++ys) := by
  intro sessions
  rw [run_append,ha,Option.bind_some,hb,List.append_assoc]

/-- A routine between select and deselect is one session. -/
theorem Sends.session {events : List Event} {bytes : List UInt8} (h : Sends events bytes) :
    SendsSessions ([.csSet]++events++[.csClear]) [bytes] := by
  intro sessions
  have hs : (Port.closed sessions).run [.csSet]=some (Port.inSession [] sessions) := rfl
  rw [run_append,run_append,hs,Option.bind_some,h,Option.bind_some]
  rfl

/-- The sessions are those that the port has carried. -/
theorem SendsSessions.sessionsOf {events : List Event} {sent : List (List UInt8)}
    (h : SendsSessions events sent) : sessionsOf events=some sent := by
  rw [Bt816Spi.sessionsOf,h]
  rfl

/-- So are the bytes. -/
theorem Sends.bytesOf {events : List Event} {bytes : List UInt8} (h : Sends events bytes) :
    bytesOf events=some bytes := by
  rw [Bt816Spi.bytesOf,h]
  rfl

end BT816Display.Bt816Spi
