import Wiring.Factory

/-!
Recipes: factories described by data. A recipe says what a factory logs, in which calls it panics
or fails, what it asks the built applications for, and how it makes its product from the numbers
and texts of the values it has.
-/

namespace Wiring

/-- Something that happens in the first calls of a factory, or in all of them when no limit is
set. -/
structure Fault (α : Type) where
  what : α
  calls : Option Nat

/-- What happens in the given call. -/
def Fault.at? {α : Type} (fault : Option (Fault α)) (call : Nat) : Option α :=
  match fault with
  | none => none
  | some ⟨what, none⟩ => some what
  | some ⟨what, some limit⟩ => if call ≤ limit then some what else none

/-- What a factory does about a failed lookup. -/
inductive OnLookupError where
  /-- It goes on without the value. -/
  | ignore
  /-- It fails with the construction error behind the lookup error, if there is one. -/
  | construction
  /-- It fails with the lookup error as an error of its own. -/
  | lookup
deriving DecidableEq

/-- A question that a factory asks while it runs. -/
structure Inquiry where
  path : PoolPath
  key : Key
  onError : OnLookupError
  peek : Bool

/-- A factory described by data. -/
structure Recipe where
  label : String
  base : Int64
  counted : Bool
  panics : Option (Fault String)
  fails : Option (Fault String)
  raises : Option (Fault ConstructionError)
  inquiries : List Inquiry

namespace Recipe

/-- The product of a call. Its number is the base plus the numbers of the inputs, with the bits
that fit; its text lists the texts of the inputs behind the label. A counted recipe adds the call
to both. -/
def product (recipe : Recipe) (output : ServiceType) (call : Nat) (inputs : List Value) : Value :=
  let number := (inputs.map Value.number).foldl (· + ·) recipe.base
  let text := recipe.label ++ "(" ++ String.intercalate "," (inputs.map Value.text) ++ ")"
  if recipe.counted then
    .ofParts output (number + Int64.ofNat call) (text ++ "#" ++ toString call)
  else
    .ofParts output number text

/-- The inquiries in order. A value that is found joins the inputs of the rest. -/
def inquire (label : String) (rest : List Value → Behaviour Raised) :
    List Inquiry → List Value → Behaviour Raised
  | [], inputs => rest inputs
  | inquiry :: inquiries, inputs =>
    if inquiry.peek then
      .peek inquiry.path inquiry.key fun
        | none => .write (.noPool label) (inquire label rest inquiries inputs)
        | some view => .write (.peeked label view) (inquire label rest inquiries inputs)
    else
      .lookup inquiry.path inquiry.key fun
        | none => .write (.noPool label) (inquire label rest inquiries inputs)
        | some (.ok found) => inquire label rest inquiries (inputs ++ [found.value])
        | some (.error error) =>
          .write (.lookupFailed label error.message) <|
            match inquiry.onError, error with
            | .ignore, _ => inquire label rest inquiries inputs
            | .construction, .construction inner => .fail (.construction inner)
            | _, _ => .fail (.other error.message)

/-- The behaviour of a call: a note, then the first fault that is due, and without a fault the
inquiries and the product. -/
def behaviour (recipe : Recipe) (output : ServiceType) (call : Nat) (inputs : List Value) :
    Behaviour Raised :=
  .write (.called recipe.label call) <|
    match Fault.at? recipe.panics call, Fault.at? recipe.fails call,
        Fault.at? recipe.raises call with
    | some message, _, _ => .panic message
    | none, some message, _ => .fail (.other message)
    | none, none, some error => .fail (.construction error)
    | none, none, none =>
      inquire recipe.label (fun inputs => .give (recipe.product output call inputs))
        recipe.inquiries inputs

end Recipe

/-- The way in which a recipe that reads its dependencies itself becomes a factory. -/
inductive ReaderForm where
  | closure
  | named
  | custom
deriving DecidableEq

/-- A recipe that reads its dependencies itself. Without readings of its own it takes all
dependencies in order. -/
structure ReaderRecipe where
  recipe : Recipe
  output : ServiceType
  form : ReaderForm
  announces : Bool
  readings : Option (List Reading)

namespace ReaderRecipe

/-- The behaviour of a call: the dependencies are announced when asked for, then read up to the
first that cannot be. -/
def behaviour (reader : ReaderRecipe) (call : Nat) (dependencies : Dependencies) :
    Behaviour Raised :=
  let run :=
    match reader.readings with
    | none =>
      reader.recipe.behaviour reader.output call (dependencies.values.map fun pair => pair.2.value)
    | some readings =>
      match dependencies.readAll readings with
      | .ok values => reader.recipe.behaviour reader.output call values
      | .error error => .fail (.construction error)
  if reader.announces then .write (.received dependencies.owner dependencies.keys) run else run

/-- The factory of the recipe. -/
def factory (reader : ReaderRecipe) : Factory :=
  match reader.form with
  | .closure => .ofReader reader.behaviour
  | .named => .ofWrapped "named" reader.behaviour
  | .custom => .ofWrapped "oracle_driver::body::CustomFactory" reader.behaviour

end ReaderRecipe

/-- The types of a closure: what it makes and what it takes. -/
structure Signature where
  output : ServiceType
  parameters : List ServiceType

namespace Signature

/-- The dependencies of a closure: the unqualified keys of its parameters. -/
def dependencies (signature : Signature) : List Key := signature.parameters.map Key.of

/-- The factory of a recipe with typed parameters. -/
def factory (signature : Signature) (fallible : Bool) (recipe : Recipe) : Factory :=
  if fallible then .ofFallible signature.parameters (recipe.behaviour signature.output)
  else .ofInfallible signature.parameters (recipe.behaviour signature.output)

end Signature

end Wiring
