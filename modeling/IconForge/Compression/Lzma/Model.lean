import IconForge.Compression.Lzma.Chance
import IconForge.Compression.Lzma.Decision
import Std.Data.HashMap

set_option autoImplicit false

/-! # Models

A model knows the chances of all contexts. For the choice of symbols the costs of lengths and
distances are not taken from the latest model but from one that is renewed from time to time. -/

namespace IconForge.Compression.Lzma

/-- The chances of contexts. -/
structure Model where
  chances : Std.HashMap Context Nat := ∅

namespace Model

/-- The chance of a context. -/
def chance (model : Model) (context : Context) : Nat :=
  model.chances.getD context evenChance

/-- The model after a bit in a context. -/
def learn (model : Model) (context : Context) (bit : Bool) : Model :=
  let chance := learned (model.chance context) bit
  { model with chances := model.chances.insert context chance }

/-- The cost of a bit in a context. -/
def cost (model : Model) (context : Context) (bit : Bool) : Nat :=
  costOfBit (model.chance context) bit

end Model

/-- A model that was kept, and how often it has been of use. -/
structure KeptModel where
  model : Model := {}
  uses : Nat := 0

namespace KeptModel

/-- Count a use. -/
def use (kept : KeptModel) : KeptModel :=
  { kept with uses := kept.uses + 1 }

/-- Renew a model that has been of use often enough. -/
def renew (kept : KeptModel) (limit : Nat) (model : Model) : KeptModel :=
  if limit ≤ kept.uses then { model := model } else kept

end KeptModel

/-- The models that costs are taken from. -/
structure Tariff where
  latest : Model := {}
  /-- Models for the lengths of a kind at a place. -/
  lengths : Std.HashMap (LengthKind × Nat) KeptModel := ∅
  distances : KeptModel := {}
  lowest : KeptModel := {}

namespace Tariff

/-- The model for the lengths of a kind at a place. -/
def lengthModel (tariff : Tariff) (kind : LengthKind) (place : Nat) : Model :=
  (tariff.lengths.getD (kind, place) {}).model

/-- The model for a context at a place. -/
def modelOf (tariff : Tariff) (place : Nat) : Context → Model
  | .lengthClass kind _ => tariff.lengthModel kind place
  | .shortLength kind _ _ => tariff.lengthModel kind place
  | .middleLength kind _ _ => tariff.lengthModel kind place
  | .longLength kind _ => tariff.lengthModel kind place
  | .slot _ _ => tariff.distances.model
  | .small _ _ => tariff.distances.model
  | .lowest _ => tariff.lowest.model
  | _ => tariff.latest

/-- The cost of a decision at a place. -/
def costOfDecision (tariff : Tariff) (place : Nat) : Decision → Nat
  | .inContext context bit => (tariff.modelOf place context).cost context bit
  | .even _ => 16

/-- The cost of a symbol. -/
def cost (tariff : Tariff) (content : Array UInt8) (position : Nat) (history : History)
    (symbol : Symbol) : Nat :=
  (Decision.ofSymbol content position history symbol).foldl
    (fun sum decision => sum + tariff.costOfDecision (position % 4) decision) 0

/-! ## Renewal -/

/-- How many lengths a model for lengths is kept for. -/
def lengthUses : Nat :=
  63

/-- Count a length of a kind at a place. -/
def useLength (tariff : Tariff) (kind : LengthKind) (place : Nat) : Tariff :=
  let kept := (tariff.lengths.getD (kind, place) {}).use.renew lengthUses tariff.latest
  { tariff with lengths := tariff.lengths.insert (kind, place) kept }

/-- Count a symbol, before it is learned. -/
def use (tariff : Tariff) (place : Nat) : Symbol → Tariff
  | .literal => tariff
  | .shortRepeat => tariff
  | .repeated _ _ => tariff.useLength .repeated place
  | .copied distance _ =>
    let tariff := { tariff.useLength .copied place with distances := tariff.distances.use }
    if Decision.slotOf distance < Decision.largeSlot then tariff
    else { tariff with lowest := tariff.lowest.use }

/-- Renew the models for distances. -/
def renew (tariff : Tariff) : Tariff :=
  { tariff with
    distances := tariff.distances.renew 128 tariff.latest
    lowest := tariff.lowest.renew 16 tariff.latest }

end Tariff

end IconForge.Compression.Lzma
