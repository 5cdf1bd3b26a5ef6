import RpcBridge.Proofs.Client.Order
import RpcBridge.Proofs.Wire.ScalarKeys

/-!
# Proofs/Client/AnyKeys — dictionaries are exported whatever their keys are

To generate code for a dictionary is to generate it for its keys and for its values, and nothing
more is asked of the keys: a dictionary is exported where a pair of its keys and values is
(`exportedAlike_pair`).  So there are clients for dictionaries that no service can write: those with
lists, tuples, records or dictionaries as their keys.  What a service needs is that the keys travel
as scalars, and the types of keys that always do are told from those that never do
(`keys_unchecked`).
-/

namespace RpcBridge.Client

/-! ## Dictionaries and pairs -/

theorem convertible_mapping {key value : Shape} :
    Convertible (.mapping key value) ↔ Convertible key ∧ Convertible value := by
  constructor
  · rintro ⟨direction, source, target, n, code, m, generated⟩
    obtain ⟨keys, between, walked, first, ⟨-, second, -⟩ | ⟨-, second, -⟩⟩ :=
      convert_mapping generated
    · exact ⟨⟨_, _, _, _, _, _, first⟩, ⟨_, _, _, _, _, _, second⟩⟩
    · exact ⟨⟨_, _, _, _, _, _, first⟩, ⟨_, _, _, _, _, _, second⟩⟩
  · rintro ⟨keys, values⟩
    obtain ⟨code, between, first⟩ := keys.yields .out (.temp ⟨"k", 0⟩) (.temp ⟨"k", 1⟩) 2
    obtain ⟨walked, m, second⟩ := values.yields .out
      (.slot Caller.params ⟨"k", 0⟩) (.slot Caller.preparedParams ⟨"k", 1⟩) between
    refine ⟨.out, Caller.params, Caller.preparedParams, 0, .ofMapping .out ⟨"k", 0⟩ ⟨"k", 1⟩
      Caller.params Caller.preparedParams code walked, m, ?_⟩
    simp only [convert, yields_bind, Generating.yields_temp, yields_pure]
    exact ⟨_, _, ⟨rfl, rfl⟩, _, _, ⟨rfl, rfl⟩, code, between, first, walked, m, second, rfl, rfl⟩

theorem convertible_pair {s t : Shape} :
    Convertible (.tuple [s, t]) ↔ Convertible s ∧ Convertible t := by
  constructor
  · rintro ⟨direction, source, target, n, code, m, generated⟩
    obtain ⟨inner, items, -⟩ := convert_tuple generated
    obtain ⟨head, between, tail, first, others, -⟩ := convertItems_cons items
    obtain ⟨_, _, _, second, -, -⟩ := convertItems_cons others
    exact ⟨⟨_, _, _, _, _, _, first⟩, ⟨_, _, _, _, _, _, second⟩⟩
  · rintro ⟨left, right⟩
    obtain ⟨head, between, first⟩ :=
      left.yields .out (.item Caller.params 0) (.item Caller.preparedParams 0) 0
    obtain ⟨tail, m, second⟩ :=
      right.yields .out (.item Caller.params 1) (.item Caller.preparedParams 1) between
    refine ⟨.out, Caller.params, Caller.preparedParams, 0, .ofTuple .out Caller.params
      Caller.preparedParams (head.append (tail.append .empty)), m, ?_⟩
    simp only [convert, convertItems, yields_bind, yields_pure]
    exact ⟨_, _, ⟨head, between, first, _, _, ⟨tail, m, second, _, _, ⟨rfl, rfl⟩, rfl, rfl⟩, rfl,
      rfl⟩, rfl, rfl⟩

/-- Descriptors between which the export of a procedure makes no difference. -/
structure ExportedAlike (d e : Descriptor) : Prop where
  renderable : d.Renderable ↔ e.Renderable
  convertible : Convertible d.shape ↔ Convertible e.shape
  definitions : d.definitions = e.definitions

theorem ExportedAlike.refl (d : Descriptor) : ExportedAlike d d := ⟨.rfl, .rfl, rfl⟩

theorem ExportedAlike.symm {d e : Descriptor} (h : ExportedAlike d e) : ExportedAlike e d :=
  ⟨h.renderable.symm, h.convertible.symm, h.definitions.symm⟩

/-- **A dictionary is exported like the pair of its keys and values.** -/
theorem exportedAlike_pair (K V : Descriptor) : ExportedAlike (.mapping K V) (.tuple [K, V]) where
  renderable := by
    rw [Descriptor.Renderable.mapping_iff, Descriptor.Renderable.tuple_iff]
    simp
  convertible := by
    have shapes : (Descriptor.tuple [K, V]).shape = .tuple [K.shape, V.shape] := rfl
    rw [shapes, convertible_pair]
    exact convertible_mapping
  definitions := by
    rw [Descriptor.definitions, Descriptor.definitions, Descriptor.allDefinitions_eq]
    simp

section Exported

variable {front back : List Procedure} {name : String} {d e d' e' : Descriptor}

theorem ExportableAlone.of_alike (input : ExportedAlike d e) (output : ExportedAlike d' e')
    (h : ExportableAlone ⟨name, d, d'⟩) : ExportableAlone ⟨name, e, e'⟩ where
  named := h.named
  input := input.renderable.1 h.input
  output := output.renderable.1 h.output
  prepared := input.convertible.1 h.prepared
  restored := output.convertible.1 h.restored

theorem Exportable.of_alike (input : ExportedAlike d e) (output : ExportedAlike d' e')
    (h : Exportable (front ++ ⟨name, d, d'⟩ :: back)) :
    Exportable (front ++ ⟨name, e, e'⟩ :: back) := by
  have definitions : (front ++ ⟨name, d, d'⟩ :: back).flatMap Procedure.definitions =
      (front ++ ⟨name, e, e'⟩ :: back).flatMap Procedure.definitions := by
    simp only [List.flatMap_append, List.flatMap_cons, Procedure.definitions, input.definitions,
      output.definitions]
  obtain ⟨distinct, alone, named, enums, interfaces⟩ := h
  rw [definitions] at named enums interfaces
  refine ⟨?_, ?_, named, enums, interfaces⟩
  · simpa using distinct
  · rw [List.forall_mem_append, List.forall_mem_cons] at alone ⊢
    exact ⟨alone.1, alone.2.1.of_alike input output, alone.2.2⟩

/-- A list of procedures is exported with a descriptor if it is with one that is exported alike. -/
theorem exists_exportClient_of_alike {options : ExportOptions} (input : ExportedAlike d e)
    (output : ExportedAlike d' e')
    (h : ∃ a, exportClient options (front ++ ⟨name, d, d'⟩ :: back) = .ok a) :
    ∃ a, exportClient options (front ++ ⟨name, e, e'⟩ :: back) = .ok a := by
  rw [exists_exportClient] at h ⊢
  exact h.of_alike input output

end Exported

/-! ## What a service needs -/

/-- An entry whose key is never a scalar keeps a dictionary from being written. -/
theorem not_keyed_of_never {key value : Shape} {k v : Value} {rest : List (Value × Value)}
    (never : key.NeverName) : ¬(Shape.mapping key value).Keyed (.map ((k, v) :: rest)) := by
  rw [Shape.Keyed]
  exact fun keyed => Shape.not_isName_of_never never k (keyed _ (.head _)).1

/-- **Clients are generated whatever the keys of dictionaries are.**  A dictionary is exported
wherever the pair of its keys and values is, as an input and as an output, so no type of keys is
refused for being one.  A dictionary with keys and values of its types is written exactly if the
keys in it travel as scalars, and otherwise it fails at one that does not.  So it is always written
if the types of the keys admit of nothing else, and never, unless it is empty, if its own keys are
of a type that admits of no scalar. -/
theorem keys_unchecked (options : ExportOptions) (front back : List Procedure) (name : String)
    (other : Descriptor) {K V : Descriptor} {entries : List (Value × Value)}
    (typed : (Descriptor.mapping K V).Holds (.map entries)) :
    (((∃ a, exportClient options (front ++ ⟨name, .mapping K V, other⟩ :: back) = .ok a) ↔
        ∃ a, exportClient options (front ++ ⟨name, .tuple [K, V], other⟩ :: back) = .ok a) ∧
      ((∃ a, exportClient options (front ++ ⟨name, other, .mapping K V⟩ :: back) = .ok a) ↔
        ∃ a, exportClient options (front ++ ⟨name, other, .tuple [K, V]⟩ :: back) = .ok a)) ∧
    ((∃ j, (Descriptor.mapping K V).encode (.map entries) = .ok j) ↔
      (Descriptor.mapping K V).shape.Keyed (.map entries)) ∧
    (∀ e, (Descriptor.mapping K V).encode (.map entries) = .error e →
      ∃ found, e.cause = .keyNotScalar found) ∧
    ((∀ key value, (Shape.mapping key value).OccursIn (Descriptor.mapping K V).shape →
      key.AlwaysName) → ∃ j, (Descriptor.mapping K V).encode (.map entries) = .ok j) ∧
    (entries ≠ [] → K.shape.NeverName →
      ∃ e found, (Descriptor.mapping K V).encode (.map entries) = .error e ∧
        e.cause = .keyNotScalar found) := by
  have alike := exportedAlike_pair K V
  have same := ExportedAlike.refl other
  have hinges := (Descriptor.hinges typed).whole
  refine ⟨⟨⟨exists_exportClient_of_alike alike same, exists_exportClient_of_alike alike.symm same⟩,
      exists_exportClient_of_alike same alike, exists_exportClient_of_alike same alike.symm⟩,
    hinges.iff_ok, fun e failed => hinges.cause failed,
    fun always => hinges.iff_ok.2 (Shape.keyed_of_always always _), fun nonempty never => ?_⟩
  obtain ⟨⟨k, v⟩, rest, rfl⟩ := List.exists_cons_of_ne_nil nonempty
  cases written : (Descriptor.mapping K V).encode (.map ((k, v) :: rest)) with
  | ok j => exact absurd (hinges.iff_ok.1 ⟨j, written⟩) (not_keyed_of_never never)
  | error e =>
    obtain ⟨found, cause⟩ := hinges.cause written
    exact ⟨e, found, rfl, cause⟩

/-- A dictionary by lists is exported and cannot be written; one by texts can. -/
theorem keys_unchecked_rows :
    let rows := Descriptor.mapping (.list (.scalar .int)) (.scalar .int)
    let names := Descriptor.mapping (.scalar .string) (.scalar .int)
    let row := Value.map [(.list [.int 1], .int 2)]
    let name := Value.map [(.string "one", .int 2)]
    (∃ a, exportClient ⟨none, none⟩ [⟨"Get", .scalar .none, rows⟩] = .ok a) ∧
    (rows.Holds row ∧ ∃ e found, rows.encode row = .error e ∧ e.cause = .keyNotScalar found) ∧
    (names.Holds name ∧ ∃ j, names.encode name = .ok j) := by
  intro rows names row name
  have pair : ∃ a, exportClient ⟨none, none⟩ [⟨"Get", .scalar .none,
      .tuple [.list (.scalar .int), .scalar .int]⟩] = .ok a := exists_artifact rfl
  have typedRow : rows.Holds row := .mapping
    (List.forall_mem_singleton.2 (.list (List.forall_mem_singleton.2 (.scalar (.int 1)))))
    (List.forall_mem_singleton.2 (.scalar (.int 2)))
  have typedName : names.Holds name := .mapping
    (List.forall_mem_singleton.2 (.scalar (.string "one")))
    (List.forall_mem_singleton.2 (.scalar (.int 2)))
  obtain ⟨exported, -, -, -, fails⟩ :=
    keys_unchecked ⟨none, none⟩ [] [] "Get" (.scalar .none) typedRow
  obtain ⟨-, -, -, written, -⟩ :=
    keys_unchecked ⟨none, none⟩ [] [] "Get" (.scalar .none) typedName
  refine ⟨exported.2.2 pair, ⟨typedRow, fails nofun trivial⟩, typedName, ?_⟩
  refine written fun key value there => ?_
  cases there with
  | here => exact ⟨nofun, nofun, nofun⟩
  | key there => cases there
  | value there => cases there

end RpcBridge.Client
