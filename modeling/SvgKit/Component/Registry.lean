import SvgKit.Component.React
import SvgKit.Component.Svelte
import SvgKit.Component.Vue
import SvgKit.Component.WebComponent

/-! The registry of generators and the generation of a component for a framework. -/

namespace SvgKit.Component

/-- A generator as it is listed. -/
structure Entry where
  framework : Framework
  description : Text
  deriving Repr, DecidableEq

/-- The generators that have been registered, in the order of registration. -/
structure Registry where
  entries : List Entry := []
  deriving Repr, DecidableEq

namespace Registry

/-- The entry of a framework. -/
def find? (r : Registry) (framework : Framework) : Option Entry :=
  r.entries.find? (·.framework = framework)

/-- Registers a generator; a framework has one at most. -/
def register (r : Registry) (entry : Entry) : Except Failure Registry :=
  match r.find? entry.framework with
  | some _ => .error (.registeredTwice entry.framework)
  | none => .ok ⟨r.entries ++ [entry]⟩

/-- Registers a generator for the framework of a name. -/
def registerNamed (r : Registry) (name description : Text) : Except Failure Registry :=
  match Framework.ofName? name with
  | none => .error (.notAFramework name)
  | some framework => r.register ⟨framework, description⟩

/-- The entry for the name of a framework. -/
def get (r : Registry) (name : Text) : Except Failure Entry :=
  match Framework.ofName? name with
  | none => .error (.unknownFramework name)
  | some framework =>
    match r.find? framework with
    | none => .error (.unregistered framework)
    | some entry => .ok entry

/-- The entries in the order of the frameworks. -/
def all (r : Registry) : List Entry := Framework.all.filterMap r.find?

/-- The number of generators. -/
def count (r : Registry) : Nat := r.entries.length

/-- The registry of all generators. -/
def standard : Registry where
  entries :=
    [ ⟨.react, "React function component with SVGProps passthrough"⟩,
      ⟨.svelte, "Svelte component with $$restProps passthrough"⟩,
      ⟨.vue, "Vue single-file component with size props"⟩,
      ⟨.webComponent, "Custom element with observed width/height/title"⟩ ]

end Registry

/-- The source that a context becomes for a framework. -/
def Context.source (c : Context) : Framework → Source
  | .react => React.source c
  | .vue => Vue.source c
  | .svelte => Svelte.source c
  | .webComponent => WebComponent.source c

/-- The source of a component for the framework of a name. An unknown framework is reported
before a missing root.
-/
def generate (framework svg filename : Text) (options : Options) : Except Failure Source := do
  let entry ← Registry.standard.get framework
  let context ← Context.ofSvg svg filename options
  pure (context.source entry.framework)

end SvgKit.Component
