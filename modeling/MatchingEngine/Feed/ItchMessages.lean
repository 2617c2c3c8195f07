import MatchingEngine.Feed.Bytes
import MatchingEngine.Foundation.FixedWidth

/-!
# ITCH 5.0 messages

`cpp/feed/itch_messages.h`: the 23 message types, each with the fields of its record in the
order of the record. A `char` is a byte, and prices are ticks as they come off the wire.
-/

namespace MatchingEngine

open Foundation

/-- `' '`. -/
def space : UInt8 := 32

namespace Itch

/-- `template <size_t N> struct Alpha`: text, padded with spaces on the right. -/
abbrev Alpha (n : ℕ) := Vector UInt8 n

/-- `Alpha::str`. -/
def Alpha.str {n : ℕ} (a : Alpha n) : Bytes := trimEnd space a.toList

/-- `struct CommonHeader`. -/
structure CommonHeader where
  /-- `stock_locate`. -/
  stockLocate : UInt16
  /-- `tracking_number`. -/
  trackingNumber : UInt16
  /-- `timestamp_ns`, 48 bits on the wire. -/
  timestampNs : UInt64
  deriving DecidableEq

/-- `struct SystemEvent`, 'S'. -/
structure SystemEvent where
  /-- `h`. -/
  h : CommonHeader
  /-- `event_code`. -/
  eventCode : UInt8
  deriving DecidableEq

/-- `struct StockDirectory`, 'R'. -/
structure StockDirectory where
  /-- `h`. -/
  h : CommonHeader
  /-- `stock`. -/
  stock : Alpha 8
  /-- `market_category`. -/
  marketCategory : UInt8
  /-- `financial_status_indicator`. -/
  financialStatusIndicator : UInt8
  /-- `round_lot_size`. -/
  roundLotSize : UInt32
  /-- `round_lots_only`. -/
  roundLotsOnly : UInt8
  /-- `issue_classification`. -/
  issueClassification : UInt8
  /-- `issue_subtype`. -/
  issueSubtype : Alpha 2
  /-- `authenticity`. -/
  authenticity : UInt8
  /-- `short_sale_threshold_indicator`. -/
  shortSaleThresholdIndicator : UInt8
  /-- `ipo_flag`. -/
  ipoFlag : UInt8
  /-- `luld_reference_price_tier`. -/
  luldReferencePriceTier : UInt8
  /-- `etp_flag`. -/
  etpFlag : UInt8
  /-- `etp_leverage_factor`. -/
  etpLeverageFactor : UInt32
  /-- `inverse_indicator`. -/
  inverseIndicator : UInt8
  deriving DecidableEq

/-- `struct StockTradingAction`, 'H'. -/
structure StockTradingAction where
  /-- `h`. -/
  h : CommonHeader
  /-- `stock`. -/
  stock : Alpha 8
  /-- `trading_state`. -/
  tradingState : UInt8
  /-- `reserved`. -/
  reserved : UInt8
  /-- `reason`. -/
  reason : Alpha 4
  deriving DecidableEq

/-- `struct RegSHORestriction`, 'Y'. -/
structure RegSHORestriction where
  /-- `h`. -/
  h : CommonHeader
  /-- `stock`. -/
  stock : Alpha 8
  /-- `reg_sho_action`. -/
  regShoAction : UInt8
  deriving DecidableEq

/-- `struct MarketParticipantPosition`, 'L'. -/
structure MarketParticipantPosition where
  /-- `h`. -/
  h : CommonHeader
  /-- `mpid`. -/
  mpid : Alpha 4
  /-- `stock`. -/
  stock : Alpha 8
  /-- `primary_market_maker`. -/
  primaryMarketMaker : UInt8
  /-- `market_maker_mode`. -/
  marketMakerMode : UInt8
  /-- `market_participant_state`. -/
  marketParticipantState : UInt8
  deriving DecidableEq

/-- `struct MWCBDeclineLevel`, 'V'. -/
structure MWCBDeclineLevel where
  /-- `h`. -/
  h : CommonHeader
  /-- `level1`. -/
  level1 : UInt64
  /-- `level2`. -/
  level2 : UInt64
  /-- `level3`. -/
  level3 : UInt64
  deriving DecidableEq

/-- `struct MWCBStatus`, 'W'. -/
structure MWCBStatus where
  /-- `h`. -/
  h : CommonHeader
  /-- `breached_level`. -/
  breachedLevel : UInt8
  deriving DecidableEq

/-- `struct IPOQuotingPeriodUpdate`, 'K'. -/
structure IPOQuotingPeriodUpdate where
  /-- `h`. -/
  h : CommonHeader
  /-- `stock`. -/
  stock : Alpha 8
  /-- `ipo_quotation_release_time`. -/
  ipoQuotationReleaseTime : UInt32
  /-- `ipo_quotation_release_qualifier`. -/
  ipoQuotationReleaseQualifier : UInt8
  /-- `ipo_price`. -/
  ipoPrice : UInt32
  deriving DecidableEq

/-- `struct LULDAuctionCollar`, 'J'. -/
structure LULDAuctionCollar where
  /-- `h`. -/
  h : CommonHeader
  /-- `stock`. -/
  stock : Alpha 8
  /-- `auction_collar_reference_price`. -/
  auctionCollarReferencePrice : UInt32
  /-- `upper_auction_collar_price`. -/
  upperAuctionCollarPrice : UInt32
  /-- `lower_auction_collar_price`. -/
  lowerAuctionCollarPrice : UInt32
  /-- `auction_collar_extension`. -/
  auctionCollarExtension : UInt32
  deriving DecidableEq

/-- `struct OperationalHalt`, 'h'. -/
structure OperationalHalt where
  /-- `h`. -/
  h : CommonHeader
  /-- `stock`. -/
  stock : Alpha 8
  /-- `market_code`. -/
  marketCode : UInt8
  /-- `operational_halt_action`. -/
  operationalHaltAction : UInt8
  deriving DecidableEq

/-- `struct AddOrderNoMPID`, 'A'. -/
structure AddOrderNoMPID where
  /-- `h`. -/
  h : CommonHeader
  /-- `order_ref_number`. -/
  orderRefNumber : UInt64
  /-- `buy_sell_indicator`. -/
  buySellIndicator : UInt8
  /-- `shares`. -/
  shares : UInt32
  /-- `stock`. -/
  stock : Alpha 8
  /-- `price`. -/
  price : UInt32
  deriving DecidableEq

/-- `struct AddOrderMPID`, 'F': the fields of `AddOrderNoMPID`, and one more. -/
structure AddOrderMPID extends AddOrderNoMPID where
  /-- `attribution`. -/
  attribution : Alpha 4
  deriving DecidableEq

/-- `struct OrderExecuted`, 'E'. -/
structure OrderExecuted where
  /-- `h`. -/
  h : CommonHeader
  /-- `order_ref_number`. -/
  orderRefNumber : UInt64
  /-- `executed_shares`. -/
  executedShares : UInt32
  /-- `match_number`. -/
  matchNumber : UInt64
  deriving DecidableEq

/-- `struct OrderExecutedWithPrice`, 'C'. -/
structure OrderExecutedWithPrice where
  /-- `h`. -/
  h : CommonHeader
  /-- `order_ref_number`. -/
  orderRefNumber : UInt64
  /-- `executed_shares`. -/
  executedShares : UInt32
  /-- `match_number`. -/
  matchNumber : UInt64
  /-- `printable`. -/
  printable : UInt8
  /-- `execution_price`. -/
  executionPrice : UInt32
  deriving DecidableEq

/-- `struct OrderCancel`, 'X'. -/
structure OrderCancel where
  /-- `h`. -/
  h : CommonHeader
  /-- `order_ref_number`. -/
  orderRefNumber : UInt64
  /-- `canceled_shares`. -/
  canceledShares : UInt32
  deriving DecidableEq

/-- `struct OrderDelete`, 'D'. -/
structure OrderDelete where
  /-- `h`. -/
  h : CommonHeader
  /-- `order_ref_number`. -/
  orderRefNumber : UInt64
  deriving DecidableEq

/-- `struct OrderReplace`, 'U'. -/
structure OrderReplace where
  /-- `h`. -/
  h : CommonHeader
  /-- `original_order_ref_number`. -/
  originalOrderRefNumber : UInt64
  /-- `new_order_ref_number`. -/
  newOrderRefNumber : UInt64
  /-- `shares`. -/
  shares : UInt32
  /-- `price`. -/
  price : UInt32
  deriving DecidableEq

/-- `struct TradeNonCross`, 'P'. -/
structure TradeNonCross where
  /-- `h`. -/
  h : CommonHeader
  /-- `order_ref_number`. -/
  orderRefNumber : UInt64
  /-- `buy_sell_indicator`. -/
  buySellIndicator : UInt8
  /-- `shares`. -/
  shares : UInt32
  /-- `stock`. -/
  stock : Alpha 8
  /-- `price`. -/
  price : UInt32
  /-- `match_number`. -/
  matchNumber : UInt64
  deriving DecidableEq

/-- `struct CrossTrade`, 'Q'. -/
structure CrossTrade where
  /-- `h`. -/
  h : CommonHeader
  /-- `shares`. -/
  shares : UInt64
  /-- `stock`. -/
  stock : Alpha 8
  /-- `cross_price`. -/
  crossPrice : UInt32
  /-- `match_number`. -/
  matchNumber : UInt64
  /-- `cross_type`. -/
  crossType : UInt8
  deriving DecidableEq

/-- `struct BrokenTrade`, 'B'. -/
structure BrokenTrade where
  /-- `h`. -/
  h : CommonHeader
  /-- `match_number`. -/
  matchNumber : UInt64
  deriving DecidableEq

/-- `struct NOII`, 'I'. -/
structure NOII where
  /-- `h`. -/
  h : CommonHeader
  /-- `paired_shares`. -/
  pairedShares : UInt64
  /-- `imbalance_shares`. -/
  imbalanceShares : UInt64
  /-- `imbalance_direction`. -/
  imbalanceDirection : UInt8
  /-- `stock`. -/
  stock : Alpha 8
  /-- `far_price`. -/
  farPrice : UInt32
  /-- `near_price`. -/
  nearPrice : UInt32
  /-- `current_reference_price`. -/
  currentReferencePrice : UInt32
  /-- `cross_type`. -/
  crossType : UInt8
  /-- `price_variation_indicator`. -/
  priceVariationIndicator : UInt8
  deriving DecidableEq

/-- `struct RPII`, 'N'. -/
structure RPII where
  /-- `h`. -/
  h : CommonHeader
  /-- `stock`. -/
  stock : Alpha 8
  /-- `interest_flag`. -/
  interestFlag : UInt8
  deriving DecidableEq

/-- `struct DirectListingCapitalRaise`, 'O'. -/
structure DirectListingCapitalRaise where
  /-- `h`. -/
  h : CommonHeader
  /-- `stock`. -/
  stock : Alpha 8
  /-- `open_eligibility_status`. -/
  openEligibilityStatus : UInt8
  /-- `minimum_allowable_price`. -/
  minimumAllowablePrice : UInt32
  /-- `maximum_allowable_price`. -/
  maximumAllowablePrice : UInt32
  /-- `near_execution_price`. -/
  nearExecutionPrice : UInt32
  /-- `near_execution_time`. -/
  nearExecutionTime : UInt64
  /-- `lower_price_range_collar`. -/
  lowerPriceRangeCollar : UInt32
  /-- `upper_price_range_collar`. -/
  upperPriceRangeCollar : UInt32
  deriving DecidableEq

/-- `using Message = std::variant<…>`. -/
inductive Message where
  /-- `SystemEvent`. -/
  | systemEvent (m : SystemEvent)
  /-- `StockDirectory`. -/
  | stockDirectory (m : StockDirectory)
  /-- `StockTradingAction`. -/
  | stockTradingAction (m : StockTradingAction)
  /-- `RegSHORestriction`. -/
  | regSHORestriction (m : RegSHORestriction)
  /-- `MarketParticipantPosition`. -/
  | marketParticipantPosition (m : MarketParticipantPosition)
  /-- `MWCBDeclineLevel`. -/
  | mwcbDeclineLevel (m : MWCBDeclineLevel)
  /-- `MWCBStatus`. -/
  | mwcbStatus (m : MWCBStatus)
  /-- `IPOQuotingPeriodUpdate`. -/
  | ipoQuotingPeriodUpdate (m : IPOQuotingPeriodUpdate)
  /-- `LULDAuctionCollar`. -/
  | luldAuctionCollar (m : LULDAuctionCollar)
  /-- `OperationalHalt`. -/
  | operationalHalt (m : OperationalHalt)
  /-- `AddOrderNoMPID`. -/
  | addOrderNoMPID (m : AddOrderNoMPID)
  /-- `AddOrderMPID`. -/
  | addOrderMPID (m : AddOrderMPID)
  /-- `OrderExecuted`. -/
  | orderExecuted (m : OrderExecuted)
  /-- `OrderExecutedWithPrice`. -/
  | orderExecutedWithPrice (m : OrderExecutedWithPrice)
  /-- `OrderCancel`. -/
  | orderCancel (m : OrderCancel)
  /-- `OrderDelete`. -/
  | orderDelete (m : OrderDelete)
  /-- `OrderReplace`. -/
  | orderReplace (m : OrderReplace)
  /-- `TradeNonCross`. -/
  | tradeNonCross (m : TradeNonCross)
  /-- `CrossTrade`. -/
  | crossTrade (m : CrossTrade)
  /-- `BrokenTrade`. -/
  | brokenTrade (m : BrokenTrade)
  /-- `NOII`. -/
  | noii (m : NOII)
  /-- `RPII`. -/
  | rpii (m : RPII)
  /-- `DirectListingCapitalRaise`. -/
  | directListingCapitalRaise (m : DirectListingCapitalRaise)
  deriving DecidableEq

end Itch

end MatchingEngine
