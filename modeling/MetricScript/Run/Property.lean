import MetricScript.Run.Basic

/-!
Properties of values. Those of handles are fetched from the source and kept, by identifier and
property name, for the rest of the run; a fetch that failed or crashed leaves nothing behind.
-/

namespace MetricScript

namespace Run

/-- Asks the source for the metric behind a property of a handle. -/
def ask (entity : Entity) (property : String) (endpoint : Endpoint) : Run Answer :=
  fun setting s =>
    let answer := setting.source s.calls ⟨endpoint, entity.id⟩
    (.ok answer, { s with fetches := s.fetches ++ [⟨entity, property, endpoint, answer⟩] })

def kept? (key : String) : Run (Option Series) := fun setting s =>
  (.ok (if setting.keepsSeries then s.cache.find? key else none), s)

def keep (key : String) (series : Series) : Run Unit := fun setting s =>
  (.ok (), if setting.keepsSeries then { s with cache := s.cache.insert key series } else s)

/-- The series kept under a key, or else the answer of a fetch, kept from then on if it is a
series. -/
def keptOrFetched (key : String) (fetch : Run Answer) : Run (Except FetchError Series) := do
  match ← kept? key with
  | some series => pure (.ok series)
  | none =>
    match ← fetch with
    | .series series => do
      keep key series
      pure (.ok series)
    | .error e => pure (.error e)
    | .crash message => crash message

def entityProperty (entity : Entity) (property : String) : Run Value := do
  match entity.kind.endpoint? property with
  | none => fail (.noMetric property entity)
  | some endpoint =>
    match ← keptOrFetched (cacheKey entity.id property) (ask entity property endpoint) with
    | .ok series => pure (.series series)
    | .error e => fail (.fetch entity property e)

/-- A property of a list: its length, or the item at a position, where a missing item is null. -/
def listProperty (items : List (Option Value)) (property : String) : Run Value :=
  if property = "length" then pure (.number items.length.toFloat)
  else
    match (Decimal.position? property).bind fun i => items[i]? with
    | some (some item) => pure item
    | some none => pure .null
    | none => fail (.noProperty property)

def property (base : Value) (property : String) : Run Value :=
  match base with
  | .entity entity => entityProperty entity property
  | .series s =>
    if property = "length" then pure (.number s.length.toFloat) else fail (.noProperty property)
  | .list items => listProperty items property
  | .scalar _ => fail (.noProperty property)

/-- Properties taken one after the other. -/
def properties (base : Value) : List String → Run Value
  | [] => pure base
  | name :: rest => do
    let value ← property base name
    properties value rest

end Run

end MetricScript
