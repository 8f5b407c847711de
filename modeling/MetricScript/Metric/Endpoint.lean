import MetricScript.Metric.Entity

/-!
The metrics that a source can be asked for, and the property names under which scripts know them.
-/

namespace MetricScript

/-- A metric that a source answers for. -/
inductive Endpoint where
  | protocolTvl
  | protocolVolume
  | protocolFees
  | protocolRevenue
  | protocolMedianApy
  | tokenMcap
  | tokenPrice
  | tokenVolume
  | chainTvl
  | chainVolume
  | chainFees
  | chainUsers
  | chainTxs
  | chainAggregators
  | chainPerps
  | chainBridgeAggregators
  | chainPerpsAggregators
  | chainOptions
  | chainRevenue
  | chainBribes
  | chainTokenTax
  | chainActiveUsers
  | chainNewUsers
  | chainGasUsed
  deriving DecidableEq, Repr

instance : Named Endpoint where
  members :=
    [.protocolTvl, .protocolVolume, .protocolFees, .protocolRevenue, .protocolMedianApy,
      .tokenMcap, .tokenPrice, .tokenVolume, .chainTvl, .chainVolume, .chainFees, .chainUsers,
      .chainTxs, .chainAggregators, .chainPerps, .chainBridgeAggregators, .chainPerpsAggregators,
      .chainOptions, .chainRevenue, .chainBribes, .chainTokenTax, .chainActiveUsers,
      .chainNewUsers, .chainGasUsed]
  name
    | .protocolTvl => "ProtocolTvl"
    | .protocolVolume => "ProtocolVolume"
    | .protocolFees => "ProtocolFees"
    | .protocolRevenue => "ProtocolRevenue"
    | .protocolMedianApy => "ProtocolMedianApy"
    | .tokenMcap => "TokenMcap"
    | .tokenPrice => "TokenPrice"
    | .tokenVolume => "TokenVolume"
    | .chainTvl => "ChainTvl"
    | .chainVolume => "ChainVolume"
    | .chainFees => "ChainFees"
    | .chainUsers => "ChainUsers"
    | .chainTxs => "ChainTxs"
    | .chainAggregators => "ChainAggregators"
    | .chainPerps => "ChainPerps"
    | .chainBridgeAggregators => "ChainBridgeAggregators"
    | .chainPerpsAggregators => "ChainPerpsAggregators"
    | .chainOptions => "ChainOptions"
    | .chainRevenue => "ChainRevenue"
    | .chainBribes => "ChainBribes"
    | .chainTokenTax => "ChainTokenTax"
    | .chainActiveUsers => "ChainActiveUsers"
    | .chainNewUsers => "ChainNewUsers"
    | .chainGasUsed => "ChainGasUsed"

/-- The properties of a kind with the metrics behind them, in ascending order of name. Chains have
no price, and only protocols have a median yield. -/
def EntityKind.metrics : EntityKind → List (String × Endpoint)
  | .protocol =>
    [("fees", .protocolFees), ("mcap", .tokenMcap), ("medianApy", .protocolMedianApy),
      ("price", .tokenPrice), ("revenue", .protocolRevenue), ("tvl", .protocolTvl),
      ("volume", .protocolVolume)]
  | .chain =>
    [("activeUsers", .chainActiveUsers), ("aggregators", .chainAggregators),
      ("bribes", .chainBribes), ("bridgeAggregators", .chainBridgeAggregators),
      ("fees", .chainFees), ("gasUsed", .chainGasUsed), ("newUsers", .chainNewUsers),
      ("options", .chainOptions), ("perps", .chainPerps),
      ("perpsAggregators", .chainPerpsAggregators), ("revenue", .chainRevenue),
      ("tokenTax", .chainTokenTax), ("tvl", .chainTvl), ("txs", .chainTxs), ("users", .chainUsers),
      ("volume", .chainVolume)]
  | .token =>
    [("marketCap", .tokenMcap), ("price", .tokenPrice), ("volume", .tokenVolume)]

/-- The metric behind a property of a kind. Capitals matter. -/
def EntityKind.endpoint? (kind : EntityKind) (property : String) : Option Endpoint :=
  kind.metrics.lookup property

/-- The names of the properties of a kind, in ascending order. -/
def EntityKind.properties (kind : EntityKind) : List String :=
  kind.metrics.map Prod.fst

end MetricScript
