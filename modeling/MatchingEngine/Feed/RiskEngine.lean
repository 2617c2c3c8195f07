import MatchingEngine.Feed.Bytes
import Mathlib.Logic.Function.Basic

/-!
# Pre-trade risk

`cpp/feed/risk.{h,cpp}`: the checks an order passes before it reaches a book. The
maps of the engine are functions, with the value that a missing entry stands for: no
trade price, and no resting orders. The counts are natural numbers.

The price band compares in `double`. What it answers is left open here, as a function of
the request and of the reference price: the text of the rejection, if there is one.
-/

namespace MatchingEngine

/-- The bytes of a text. -/
def text (s : String) : Bytes := s.toUTF8.data.toList

namespace RiskEngine

/-- `struct Config`. -/
structure Config where
  /-- `max_order_size`. -/
  maxOrderSize : Quantity := 1000000
  /-- `min_price`. -/
  minPrice : ℤ := 1
  /-- `max_price`. -/
  maxPrice : ℤ := 2000000000
  /-- The test against `price_band_pct`. -/
  priceBand : OrderRequest → ℤ → Option Bytes

/-- `enum class RejectReason`. -/
inductive RejectReason where
  /-- `None`. -/
  | none
  /-- `OrderTooLarge`. -/
  | orderTooLarge
  /-- `PriceOutOfBounds`. -/
  | priceOutOfBounds
  /-- `PriceBandViolation`. -/
  | priceBandViolation
  /-- `SelfTrade`. -/
  | selfTrade
  deriving DecidableEq

/-- `struct Verdict`. -/
structure Verdict where
  /-- `accepted`. -/
  accepted : Bool
  /-- `reason`. -/
  reason : RejectReason
  /-- `detail`. -/
  detail : Bytes
  deriving DecidableEq

/-- The verdict on an order that passes. -/
def Verdict.pass : Verdict := ⟨true, .none, []⟩

end RiskEngine

/-- `class RiskEngine`. -/
structure RiskEngine where
  /-- `cfg_`. -/
  cfg : RiskEngine.Config
  /-- `last_trade_price_`. -/
  lastTradePrice : Bytes → Option ℤ
  /-- `resting_count_`. -/
  restingCount : Bytes → ℕ

namespace RiskEngine

/-- The constructor. -/
def new (cfg : Config) : RiskEngine := ⟨cfg, fun _ => none, fun _ => 0⟩

/-- The byte between the parts of a key. -/
def separator : UInt8 := 1

/-- `key`. -/
def key (symbol mpid : Bytes) (side : Side) : Bytes :=
  symbol ++ separator :: (mpid ++ [separator, match side with | .buy => 66 | .sell => 83])

/-- The reference price of the band, if there is one: the last trade, or what the book shows. -/
def reference (risk : RiskEngine) (symbol : Bytes) (book : OrderBookV2) : Except Ub (Option ℤ) :=
  match risk.lastTradePrice symbol with
  | some p => .ok (some p)
  | none =>
    if book.hasBid ∧ book.hasAsk then do
      let sum ← i64 ((← book.bestBid) + (← book.bestAsk))
      .ok (some (sum.tdiv 2))
    else if book.hasBid then do .ok (some (← book.bestBid))
    else if book.hasAsk then do .ok (some (← book.bestAsk))
    else .ok none

/-- The check of the quantity. -/
def tooLarge (risk : RiskEngine) (req : OrderRequest) : Option Verdict :=
  if risk.cfg.maxOrderSize < req.qty then
    some ⟨false, .orderTooLarge,
      text s!"qty {req.qty.toNat} exceeds max_order_size {risk.cfg.maxOrderSize.toNat}"⟩
  else none

/-- The check of the price. -/
def outOfBounds (risk : RiskEngine) (req : OrderRequest) : Option Verdict :=
  if req.price < risk.cfg.minPrice ∨ risk.cfg.maxPrice < req.price then
    some ⟨false, .priceOutOfBounds,
      text s!"price {req.price} outside [{risk.cfg.minPrice}, {risk.cfg.maxPrice}]"⟩
  else none

/-- The check against the reference price. -/
def outOfBand (risk : RiskEngine) (req : OrderRequest) (reference : Option ℤ) : Option Verdict :=
  match reference with
  | none => none
  | some p => if 0 < p then (risk.cfg.priceBand req p).map fun detail => ⟨false, .priceBandViolation, detail⟩ else none

/-- The check for a trade of a participant with itself. -/
def selfTrade (risk : RiskEngine) (req : OrderRequest) (symbol mpid : Bytes) : Option Verdict :=
  if mpid ≠ [] ∧ 0 < risk.restingCount (key symbol mpid req.side.opposite) then
    some ⟨false, .selfTrade,
      text "mpid " ++ mpid ++ text " already rests on the opposite side of " ++ symbol⟩
  else none

/-- `check`: the first of the four that declines, if one does. -/
def check (risk : RiskEngine) (req : OrderRequest) (symbol mpid : Bytes) (book : OrderBookV2) : Except Ub Verdict :=
  match risk.tooLarge req with
  | some v => .ok v
  | none =>
    match risk.outOfBounds req with
    | some v => .ok v
    | none => do
      let reference ← risk.reference symbol book
      match risk.outOfBand req reference with
      | some v => .ok v
      | none => .ok ((risk.selfTrade req symbol mpid).getD .pass)

/-- `on_trade`. -/
def onTrade (risk : RiskEngine) (symbol : Bytes) (price : ℤ) : RiskEngine :=
  { risk with lastTradePrice := Function.update risk.lastTradePrice symbol (some price) }

/-- `note_resting`. -/
def noteResting (risk : RiskEngine) (symbol mpid : Bytes) (side : Side) : RiskEngine :=
  if mpid = [] then risk
  else { risk with
    restingCount := Function.update risk.restingCount (key symbol mpid side)
      (risk.restingCount (key symbol mpid side) + 1) }

/-- `note_removed`. -/
def noteRemoved (risk : RiskEngine) (symbol mpid : Bytes) (side : Side) : RiskEngine :=
  if mpid = [] then risk
  else { risk with
    restingCount := Function.update risk.restingCount (key symbol mpid side)
      (risk.restingCount (key symbol mpid side) - 1) }

end RiskEngine

end MatchingEngine
