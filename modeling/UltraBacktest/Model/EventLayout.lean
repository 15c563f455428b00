import UltraBacktest.Library.LittleEndian
import UltraBacktest.Model.BinaryReader
import UltraBacktest.Model.Event

/-! The event record in memory, on a little-endian machine: the header at the offsets that
the layout test asserts, and the payload that the type code selects from byte 16 on. A binary
file holds events in this form. -/

namespace UltraBacktest

open LittleEndian

/-- The bytes of UltraLOB's `Side`. What a byte outside the enumeration is read as is left
open. -/
structure SideCode where
  code : Side → UInt8
  side : UInt8 → Side
  side_code : ∀ s, side (code s) = s

namespace EventLayout

def u64At (offset : ℕ) (r : List UInt8) : ℕ := value (field offset 8 r)

def i64At (offset : ℕ) (r : List UInt8) : ℤ := Word64.wrap (u64At offset r)

def u32At (offset : ℕ) (r : List UInt8) : UInt32 := UInt32.ofNat (value (field offset 4 r))

def u8At (offset : ℕ) (r : List UInt8) : UInt8 := UInt8.ofNat (value (field offset 1 r))

/-- The payload that the type code makes the dispatcher read. -/
def bodyOf (sides : SideCode) (r : List UInt8) : EventBody :=
  match (u8At 12 r).toNat with
  | 0 => .marketTick
      { bestBid := i64At 16 r, bestAsk := i64At 24 r, bidQty := u64At 32 r, askQty := u64At 40 r
        lastPrice := i64At 48 r, lastQty := u64At 56 r }
  | 1 => .trade
      { price := i64At 16 r, qty := u64At 24 r, aggressorSide := sides.side (u8At 32 r) }
  | 2 => .quote
      { bestBid := i64At 16 r, bestAsk := i64At 24 r, bidQty := u64At 32 r
        askQty := u64At 40 r }
  | 3 => .orderAdd
      { orderId := u64At 16 r, price := i64At 24 r, qty := u64At 32 r
        side := sides.side (u8At 40 r) }
  | 4 => .orderCancel { orderId := u64At 16 r }
  | 5 => .orderModify
      { orderId := u64At 16 r, newPrice := i64At 24 r, newQty := u64At 32 r }
  | 6 => .orderExecution
      { orderId := u64At 16 r, execPrice := i64At 24 r, execQty := u64At 32 r
        leavesQty := u64At 40 r, side := sides.side (u8At 48 r) }
  | 10 => .strategyTimer { strategyId := u32At 16 r, timerId := u32At 20 r }
  | 11 => .barClose
  | 20 => .sessionStart
  | 21 => .sessionEnd
  | 255 => .endOfData
  | _ => .unknown (u8At 12 r)

/-- The event that the bytes of a record are. -/
def eventOf (sides : SideCode) (r : List UInt8) : Event where
  timestamp := i64At 0 r
  symbol := u32At 8 r
  body := bodyOf sides r

/-- The values of `EventType`. -/
def typeCode : EventBody → UInt8
  | .marketTick _ => 0
  | .trade _ => 1
  | .quote _ => 2
  | .orderAdd _ => 3
  | .orderCancel _ => 4
  | .orderModify _ => 5
  | .orderExecution _ => 6
  | .strategyTimer _ => 10
  | .barClose => 11
  | .sessionStart => 20
  | .sessionEnd => 21
  | .endOfData => 255
  | .unknown code => code

/-- The members of the payload, one after the other. -/
def payload (sides : SideCode) : EventBody → List UInt8
  | .marketTick d =>
      signedBytes d.bestBid ++ signedBytes d.bestAsk ++ bytes 8 d.bidQty ++ bytes 8 d.askQty ++
        signedBytes d.lastPrice ++ bytes 8 d.lastQty
  | .trade d => signedBytes d.price ++ bytes 8 d.qty ++ [sides.code d.aggressorSide]
  | .quote d =>
      signedBytes d.bestBid ++ signedBytes d.bestAsk ++ bytes 8 d.bidQty ++ bytes 8 d.askQty
  | .orderAdd d =>
      bytes 8 d.orderId ++ signedBytes d.price ++ bytes 8 d.qty ++ [sides.code d.side]
  | .orderCancel d => bytes 8 d.orderId
  | .orderModify d => bytes 8 d.orderId ++ signedBytes d.newPrice ++ bytes 8 d.newQty
  | .orderExecution d =>
      bytes 8 d.orderId ++ signedBytes d.execPrice ++ bytes 8 d.execQty ++
        bytes 8 d.leavesQty ++ [sides.code d.side]
  | .strategyTimer d => bytes 4 d.strategyId.toNat ++ bytes 4 d.timerId.toNat
  | _ => []

/-- The representation of an event whose other bytes are zero, as the constructor and the
factories leave them. -/
def recordOf (sides : SideCode) (e : Event) : List UInt8 :=
  signedBytes e.timestamp ++ bytes 4 e.symbol.toNat ++ [typeCode e.body] ++ [0, 0, 0] ++
    (payload sides e.body ++ List.replicate (48 - (payload sides e.body).length) 0)

/-- A file of events. -/
def fileOf (sides : SideCode) (es : List Event) : List UInt8 := es.flatMap (recordOf sides)

end EventLayout

/-- The reader of binary files with its records read as events. -/
abbrev EventReader (sides : SideCode) (eventsPerRead : ℕ) :=
  Stream.Mapped (BinaryReader eventsPerRead) (EventLayout.eventOf sides)

end UltraBacktest
