import BT816Display.Lib.ByteMemory
import BT816Display.Lib.BigEndian
import BT816Display.Crc

/-!
# The node address in the configuration of config.c

A configuration item is checked by its identifier and its checksum. Nothing
checks the node address in it, so any byte can be loaded.
-/

namespace BT816Display.Config

open ByteMemory BigEndian Crc

/-- check_item_config: the result and the block with its length cleared. -/
def checkItemConfig (ptr : Mem UInt8) (id : UInt16) : Bool×Mem UInt8 :=
  let curId := join16 (ptr 0) (ptr 1)
  if curId=id then
    let length := (join16 (ptr 2) (ptr 3)).toNat
    if length>4096 then (true,ptr)
    else
      let length := if length<2 then 2 else length
      let length := length-2
      let ptr := store ptr 2 [0,0]
      let crc := (getCRC16 (load ptr 0 length)).toUInt16
      (ptr length=(crc&&&0xFF).toUInt8 ∧ ptr (length+1)=(crc>>>8).toUInt8,ptr)
  else (false,ptr)

/-- The step of read_config that loads lcd_can_addr from the block of item 10. -/
def readLcdCanAddr (confBuf : Mem UInt8) (lcdCanAddr : UInt8) : UInt8 :=
  let (ok,confBuf) := checkItemConfig confBuf 10
  if ok then confBuf 6 else lcdCanAddr

/-- Item 10 with a node address before its checksum. -/
def nodeItem (addr : UInt8) : List UInt8 := [0,10,0,0,0,0,addr]

/-- The block of item 10 with a node address. -/
def nodeBlock (addr : UInt8) : Mem UInt8 := fun i =>
  let crc := (getCRC16 (nodeItem addr)).toUInt16
  [0,10,0,9,0,0,addr,(crc&&&0xFF).toUInt8,(crc>>>8).toUInt8].getD i 0

/-- Every byte is the node address of an item with a correct checksum. -/
theorem readLcdCanAddr_nodeBlock (addr lcdCanAddr : UInt8) :
    readLcdCanAddr (nodeBlock addr) lcdCanAddr=addr := by
  have hload : load (store (nodeBlock addr) 2 [0,0]) 0 7=nodeItem addr := rfl
  have h0 : nodeBlock addr 0=0 := rfl
  have h1 : nodeBlock addr 1=10 := rfl
  have h2 : nodeBlock addr 2=0 := rfl
  have h3 : nodeBlock addr 3=9 := rfl
  have hid : join16 (nodeBlock addr 0) (nodeBlock addr 1)=10 := by
    rw [h0,h1]
    decide
  have hlen : (join16 (nodeBlock addr 2) (nodeBlock addr 3)).toNat=9 := by
    rw [h2,h3]
    decide
  have hcheck : checkItemConfig (nodeBlock addr) 10=(true,store (nodeBlock addr) 2 [0,0]) := by
    unfold checkItemConfig
    dsimp only
    rw [if_pos hid,hlen,if_neg (by omega),if_neg (by omega)]
    dsimp only [Nat.reduceSub]
    rw [hload]
    exact Prod.ext (decide_eq_true ⟨rfl,rfl⟩) rfl
  unfold readLcdCanAddr
  rw [hcheck]
  rfl

end BT816Display.Config
