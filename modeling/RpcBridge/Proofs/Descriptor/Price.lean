import Mathlib
import RpcBridge.Proofs.Descriptor.Opening

/-!
# Proofs/Descriptor/Price — what carrying a descriptor out costs

An application stands for a record whose fields may be larger than the application: an argument is
copied wherever its parameter stands, also into the arguments of other applications.  So the nodes
of a descriptor (`Descriptor.nodes`) say nothing of how far it has still to be carried out.  Its
*price* does.  A parameter costs what it is bound to, and an application pays for the fields of its
template at the prices of its arguments; what is substituted has been paid for
(`priceIn_eq`).

* `priceIn_eq` — the price at given prices of the parameters is that of the substituted descriptor;
* `price_instance_lt` — the fields of an application cost less than the application;
* `exists_instance_larger` — though they may have more nodes.
-/

namespace RpcBridge.Descriptor

/-! ## Prices -/

/-- The price of a parameter, if the parameters `params` have the prices `prices`; of two of one
name the later counts. -/
def paramPrice (params : List String) (prices : List Nat) (name : String) : Nat :=
  (((params.zip prices).reverse.find? (·.1 = name)).map (·.2)).getD 1

mutual

/-- The price of a descriptor at given prices of the parameters. -/
def priceIn (cost : String → Nat) : Descriptor → Nat
  | .param name => cost name
  | .list element => element.priceIn cost + 1
  | .tuple items => (pricesIn cost items).sum + 1
  | .variadic items => (pricesIn cost items).sum + 1
  | .mapping key value => key.priceIn cost + value.priceIn cost + 1
  | .optional inner => inner.priceIn cost + 1
  | .union members => (pricesIn cost members).sum + 1
  | .record _ fields _ => (fieldPrices (fun _ => 1) fields).sum + 1
  | .template _ _ fields => (fieldPrices (fun _ => 1) fields).sum + 1
  | .application (.template _ params fields) args =>
    (fieldPrices (paramPrice params (pricesIn cost args)) fields).sum + 1
  | .application (.record _ fields _) _ => (fieldPrices (fun _ => 1) fields).sum + 2
  | _ => 1

/-- The prices of a list of descriptors. -/
def pricesIn (cost : String → Nat) : List Descriptor → List Nat
  | [] => []
  | d :: rest => d.priceIn cost :: pricesIn cost rest

/-- The prices of fields. -/
def fieldPrices (cost : String → Nat) : List Field → List Nat
  | [] => []
  | (_, d) :: rest => d.priceIn cost :: fieldPrices cost rest

end

/-- What it costs to carry a descriptor out. -/
def price (d : Descriptor) : Nat := d.priceIn fun _ => 1

theorem pricesIn_eq_map (cost : String → Nat) (ds : List Descriptor) :
    pricesIn cost ds = ds.map (priceIn cost) := by
  induction ds with
  | nil => rfl
  | cons d rest ih => exact congrArg (List.cons (d.priceIn cost)) ih

theorem fieldPrices_eq_map (cost : String → Nat) (fields : List Field) :
    fieldPrices cost fields = fields.map fun f => f.2.priceIn cost := by
  induction fields with
  | nil => rfl
  | cons f rest ih => exact congrArg (List.cons (f.2.priceIn cost)) ih

section Nodes

variable {d : Descriptor} {ds : List Descriptor} {name : String} {fields : List Field}

theorem price_list : (list d).price = d.price + 1 := rfl

theorem price_optional : (optional d).price = d.price + 1 := rfl

theorem price_mapping {key value : Descriptor} :
    (mapping key value).price = key.price + value.price + 1 := rfl

theorem price_tuple : (tuple ds).price = (ds.map price).sum + 1 :=
  congrArg (·.sum + 1) (pricesIn_eq_map _ ds)

theorem price_variadic : (variadic ds).price = (ds.map price).sum + 1 :=
  congrArg (·.sum + 1) (pricesIn_eq_map _ ds)

theorem price_union : (union ds).price = (ds.map price).sum + 1 :=
  congrArg (·.sum + 1) (pricesIn_eq_map _ ds)

theorem price_record {transparent : Bool} :
    (record name fields transparent).price = (fields.map (·.2.price)).sum + 1 :=
  congrArg (·.sum + 1) (fieldPrices_eq_map _ fields)

/-- An application costs more than the record it applies to nothing. -/
theorem price_application_record {transparent : Bool} :
    (application (.record name fields transparent) ds).price =
      (record name fields transparent).price + 1 := rfl

/-- An item costs no more than all items together. -/
theorem price_item_le (hd : d ∈ ds) : d.price ≤ (ds.map price).sum :=
  List.le_sum_of_mem (List.mem_map_of_mem hd)

/-- A field's type costs no more than all fields together. -/
theorem price_field_le {f : Field} (hf : f ∈ fields) :
    f.2.price ≤ (fields.map (·.2.price)).sum :=
  List.le_sum_of_mem (List.mem_map_of_mem (f := fun f : Field => f.2.price) hf)

end Nodes

/-! ## Prices and substitution -/

variable {d : Descriptor}

/-- **What is substituted has been paid for**: if each parameter costs what it is bound to, the
price is that of the substituted descriptor. -/
theorem priceIn_eq (bindings : Bindings) (d : Descriptor) :
    d.priceIn (fun name => ((param name).substitute bindings).price) =
      (d.substitute bindings).price := by
  have all {ds : List Descriptor} (ih : ∀ d ∈ ds,
      d.priceIn (fun name => ((param name).substitute bindings).price) =
        (d.substitute bindings).price) :
      pricesIn (fun name => ((param name).substitute bindings).price) ds =
        pricesIn (fun _ => 1) (substituteAll bindings ds) := by
    rw [pricesIn_eq_map, pricesIn_eq_map, substituteAll_eq_map, List.map_map]
    exact List.map_congr_left ih
  induction d with
  | param name => rw [priceIn]
  | list element ih => rw [priceIn, ih, substitute, price, price, priceIn]
  | optional inner ih => rw [priceIn, ih, substitute, price, price, priceIn]
  | mapping key value ihKey ihValue =>
    rw [priceIn, ihKey, ihValue, substitute, price, price, price, priceIn]
  | tuple ds ih => rw [priceIn, all ih, substitute, price, priceIn]
  | variadic ds ih => rw [priceIn, all ih, substitute, price, priceIn]
  | union ds ih => rw [priceIn, all ih, substitute, price, priceIn]
  | application origin args _ ih =>
    rw [substitute, price]
    cases origin <;> simp only [priceIn, all ih]
  | _ => simp only [substitute, price, priceIn]

/-- The parameters of a template cost what the arguments cost. -/
theorem paramPrice_eq (params : List String) (args : List Descriptor) :
    paramPrice params (pricesIn (fun _ => 1) args) =
      fun name => ((param name).substitute (params.zip args)).price := by
  funext name
  have priced : params.zip (pricesIn (fun _ => 1) args) =
      (params.zip args).map fun b => (b.1, b.2.price) := by
    rw [pricesIn_eq_map, List.zip_map_right]
    rfl
  rw [paramPrice, priced, ← List.map_reverse, List.find?_map, substitute, Bindings.find?]
  have same : ((fun b : String × Nat => decide (b.1 = name)) ∘
      fun b : String × Descriptor => (b.1, b.2.price)) = fun b => decide (b.1 = name) := rfl
  rw [same]
  cases (params.zip args).reverse.find? (·.1 = name) with
  | none => simp only [Option.map_none, Option.getD_none, price, priceIn]
  | some b => simp only [Option.map_some, Option.getD_some]

/-- **The fields of an application cost less than the application.** -/
theorem price_instance_lt {name : String} {params : List String} {fields : List Field}
    {args : List Descriptor} {i : Instance}
    (made : instantiate (.template name params fields) args = .ok i) {f : Field}
    (hf : f ∈ i.fields) : f.2.price < (application (.template name params fields) args).price := by
  rw [instantiate] at made
  split at made
  · cases made
    obtain ⟨g, hg, rfl⟩ := List.mem_map.1 hf
    rw [← priceIn_eq, ← paramPrice_eq, price, priceIn, fieldPrices_eq_map, Nat.lt_succ_iff]
    exact List.le_sum_of_mem (List.mem_map.2 ⟨g, hg, rfl⟩)
  · cases made

/-! ## Nodes -/

mutual

/-- The nodes of a descriptor. -/
def nodes : Descriptor → Nat
  | .scalar _ | .temporal _ | .param _ | .enum _ | .foreign _ => 1
  | .list inner | .optional inner => inner.nodes + 1
  | .tuple ds | .variadic ds | .union ds => allNodes ds + 1
  | .mapping key value => key.nodes + value.nodes + 1
  | .record _ fields _ | .template _ _ fields => fieldNodes fields + 1
  | .application origin args => origin.nodes + allNodes args + 1

/-- The nodes of a list of descriptors. -/
def allNodes : List Descriptor → Nat
  | [] => 0
  | d :: rest => d.nodes + allNodes rest

/-- The nodes of the types of fields. -/
def fieldNodes : List Field → Nat
  | [] => 0
  | (_, d) :: rest => d.nodes + fieldNodes rest

end

/-- **A field of an application may have more nodes than the application**: here it is itself an
application, of a pair to the argument twice. -/
theorem exists_instance_larger : ∃ name params fields args i f,
    instantiate (.template name params fields) args = .ok i ∧ f ∈ i.fields ∧
      (application (.template name params fields) args).nodes < f.2.nodes := by
  let pair : Descriptor := .template "Pair" ["A", "B"] [("a", .param "A"), ("b", .param "B")]
  let point : Descriptor := .tuple (List.replicate 4 (.scalar .int))
  exact ⟨"Twice", ["T"], [("pair", .application pair [.param "T", .param "T"])], [point], _,
    ("pair", .application pair [point, point]), rfl, List.mem_singleton.2 rfl, by decide⟩

end RpcBridge.Descriptor
