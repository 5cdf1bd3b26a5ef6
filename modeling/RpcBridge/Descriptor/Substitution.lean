import RpcBridge.Descriptor.Basic

/-!
# Descriptor/Substitution — arguments for parameters

Substitution replaces parameters in containers, unions and arguments.  The bodies of records and
templates are definitions of their own and stay as they are.  Applying a template substitutes its
arguments into its fields (`instantiate`).
-/

namespace RpcBridge

/-- Descriptors for parameters.  Of two bindings of one parameter the later one counts. -/
abbrev Bindings := List (String × Descriptor)

namespace Bindings

/-- The descriptor bound to a parameter. -/
def find? (bindings : Bindings) (name : String) : Option Descriptor :=
  (bindings.reverse.find? (·.1 = name)).map (·.2)

end Bindings

namespace Descriptor

mutual

/-- Replaces the parameters that are bound. -/
def substitute (bindings : Bindings) : Descriptor → Descriptor
  | .param name => (bindings.find? name).getD (.param name)
  | .list element => .list (element.substitute bindings)
  | .tuple items => .tuple (substituteAll bindings items)
  | .variadic items => .variadic (substituteAll bindings items)
  | .mapping key value => .mapping (key.substitute bindings) (value.substitute bindings)
  | .optional inner => .optional (inner.substitute bindings)
  | .union members => .union (substituteAll bindings members)
  | .application origin args => .application origin (substituteAll bindings args)
  | other => other

/-- Replaces the bound parameters in every descriptor of a list. -/
def substituteAll (bindings : Bindings) : List Descriptor → List Descriptor
  | [] => []
  | d :: rest => d.substitute bindings :: substituteAll bindings rest

end

/-- Replaces the bound parameters in the types of fields. -/
def substituteFields (bindings : Bindings) (fields : List Field) : List Field :=
  fields.map fun f => (f.1, f.2.substitute bindings)

/-- A record made by applying a template. -/
structure Instance where
  name : String
  fields : List Field

/-- The record that a descriptor applied to arguments stands for. An ordinary record takes no
arguments and stands for itself. -/
def instantiate (origin : Descriptor) (args : List Descriptor) :
    Except DescriptorError Instance :=
  match origin with
  | .template name params fields =>
    if params.length = args.length then
      .ok ⟨name, substituteFields (params.zip args) fields⟩
    else .error (.argumentCount name params.length args.length)
  | .record name fields _ =>
    if args.isEmpty then .ok ⟨name, fields⟩ else .error (.argumentCount name 0 args.length)
  | other => .error (.notApplicable other.toText)

end Descriptor

end RpcBridge
