import RpcBridge.Proofs.Client.Declarations
import RpcBridge.Proofs.Client.Listing

/-!
# Proofs/Client/Identifiers — the names that a client declares

The identifier of a declaration is its name up to the parameters.  What is of one kind and has one
declared name is one declaration; so the identifiers of a client are distinct exactly if its
definitions use a name for one kind and for one list of parameters (`identifiers_of_exportClient`).
An enum and a record of one name are both declared (`identifiers_of_exportClient_clash`).
-/

namespace RpcBridge.Client

/-- The identifier of a declaration: its name, without the parameters of a template. -/
def Declaration.identifier (D : Declaration) : String :=
  String.ofList (D.name.toList.takeWhile (· ≠ '<'))

/-- The identifier of a definition's declaration is the definition's name. -/
theorem identifier_declaration {m : Definition} (h : isIdentifier m.name = true) :
    m.declaration.identifier = m.name := by
  have apart : ∀ c ∈ m.name.toList, decide (c ≠ '<') = true := fun c hc =>
    decide_eq_true (ne_of_isIdentifier h c hc)
  have whole : m.name.toList.takeWhile (· ≠ '<') = m.name.toList :=
    List.takeWhile_eq_self_iff.2 apart
  unfold Declaration.identifier Definition.declaration Definition.declaredName
  dsimp only
  split
  · rw [whole, String.ofList_toList]
  · simp only [Descriptor.declaredName, String.toList_append, List.append_assoc]
    rw [List.takeWhile_append_of_pos apart]
    simp

section Exported

variable {options : ExportOptions} {procedures : List Procedure} {a : Artifact}

/-- **The identifiers of a client are distinct exactly if its definitions keep them apart**: the
two tables see to it that definitions of one kind and one declared name are one declaration, and
nothing sees to it that a name is used for one kind and with one list of parameters.  Every
declaration lists the names of its definition as they come, so a name is listed twice exactly where
a definition has it twice. -/
theorem identifiers_of_exportClient (h : exportClient options procedures = .ok a) :
    ((a.enums.map (·.name)).Nodup ∧ (a.interfaces.map (·.name)).Nodup) ∧
    (∀ (d e : Descriptor) (m n : Definition), d.DefinesAmong procedures m →
      e.DefinesAmong procedures n → m.keyword = n.keyword → m.declaredName = n.declaredName →
        m.declaration = n.declaration) ∧
    ((a.section.map (·.identifier)).Nodup ↔
      ∀ (d e : Descriptor) (m n : Definition), d.DefinesAmong procedures m →
        e.DefinesAmong procedures n → m.name = n.name →
          m.keyword = n.keyword ∧ m.declaredName = n.declaredName) ∧
    (∀ E ∈ a.section, ∃ (d : Descriptor) (m : Definition), d.DefinesAmong procedures m ∧
      m.declaration = E ∧ E.identifier = m.name ∧ E.listed = m.entries.map (·.1) ∧
        E.parameters = m.params?.getD []) ∧
    ((∀ E ∈ a.section, E.listed.Nodup ∧ E.parameters.Nodup) ↔
      ∀ (d : Descriptor) (m : Definition), d.DefinesAmong procedures m →
        (m.entries.map (·.1)).Nodup ∧ (m.params?.getD []).Nodup) := by
  have renderable {d : Descriptor} {m : Definition} (defines : d.DefinesAmong procedures m) :
      d.Renderable := (exists_exportClient.1 ⟨a, h⟩).renderable defines.1
  have named {d : Descriptor} {m : Definition} (defines : d.DefinesAmong procedures m) :
      m.declaration.identifier = m.name :=
    identifier_declaration ((declares_of_exportClient h).named m
      (Descriptor.mem_procedures.2 ⟨d, defines⟩))
  have declared {d : Descriptor} {m : Definition} (defines : d.DefinesAmong procedures m) :
      m.declaration ∈ a.section := (mem_section h).2 ⟨d, m, defines, rfl⟩
  have listed {d : Descriptor} {m : Definition} (defines : d.DefinesAmong procedures m) :=
    listed_declaration (renderable defines) defines.2
  have bound {d : Descriptor} {m : Definition} (defines : d.DefinesAmong procedures m) :=
    parameters_declaration (renderable defines) defines.2
  have equal : ∀ (d e : Descriptor) (m n : Definition), d.DefinesAmong procedures m →
      e.DefinesAmong procedures n → m.keyword = n.keyword → m.declaredName = n.declaredName →
        m.declaration = n.declaration := fun d e m n hm hn keyword name =>
    List.inj_on_of_nodup_map (nodup_section h) (declared hm) (declared hn) (Prod.ext keyword name)
  refine ⟨⟨nodup_enums h, nodup_interfaces h⟩, equal, ⟨fun distinct => ?_, fun apart => ?_⟩,
    fun E hE => ?_, ⟨fun distinct d m hm => ?_, fun distinct E hE => ?_⟩⟩
  · intro d e m n hm hn same
    rw [← named hm, ← named hn] at same
    have one := List.inj_on_of_nodup_map distinct (declared hm) (declared hn) same
    exact ⟨congrArg (·.keyword) one, congrArg (·.name) one⟩
  · refine List.Nodup.map_on ?_ (nodup_section h).of_map
    intro E hE F hF same
    obtain ⟨d, m, hm, rfl⟩ := (mem_section h).1 hE
    obtain ⟨e, n, hn, rfl⟩ := (mem_section h).1 hF
    rw [named hm, named hn] at same
    obtain ⟨keyword, name⟩ := apart d e m n hm hn same
    exact equal d e m n hm hn keyword name
  · obtain ⟨d, m, hm, rfl⟩ := (mem_section h).1 hE
    exact ⟨d, m, hm, rfl, named hm, listed hm, bound hm⟩
  · rw [← listed hm, ← bound hm]
    exact distinct _ (declared hm)
  · obtain ⟨d, m, hm, rfl⟩ := (mem_section h).1 hE
    rw [listed hm, bound hm]
    exact distinct d m hm

/-- A client for a procedure whose input and output are an enum and a record of one name. -/
theorem identifiers_of_exportClient_clash :
    ∃ switch box p a, switch = Descriptor.enum ⟨"B", [⟨"ON", .int 1⟩]⟩ ∧
      box = Descriptor.record "B" [("x", .scalar .int)] false ∧
      p = Procedure.mk "Get" switch box ∧ exportClient ⟨none, none⟩ [p] = .ok a ∧
      a.section = [⟨"enum", "B", "\x7bON = 1\x7d"⟩, ⟨"interface", "B", "\x7bx: number\x7d"⟩] ∧
      ¬(a.section.map (·.identifier)).Nodup := by
  obtain ⟨switch, hswitch⟩ : ∃ d, d = Descriptor.enum ⟨"B", [⟨"ON", .int 1⟩]⟩ := ⟨_, rfl⟩
  obtain ⟨box, hbox⟩ : ∃ d, d = Descriptor.record "B" [("x", .scalar .int)] false := ⟨_, rfl⟩
  have sections : (exportClient ⟨none, none⟩ [Procedure.mk "Get" switch box]).toOption.map
      (·.section) =
        some [⟨"enum", "B", "\x7bON = 1\x7d"⟩, ⟨"interface", "B", "\x7bx: number\x7d"⟩] := by
    rw [hswitch, hbox]
    rfl
  cases exported : exportClient ⟨none, none⟩ [Procedure.mk "Get" switch box] with
  | error e =>
    rw [exported] at sections
    cases sections
  | ok a =>
    rw [exported] at sections
    refine ⟨switch, box, _, a, hswitch, hbox, rfl, exported, Option.some.inj sections, ?_⟩
    rw [(identifiers_of_exportClient exported).2.2.1]
    intro apart
    have one : switch.DefinesAmong [Procedure.mk "Get" switch box]
        (.ofEnum ⟨"B", [⟨"ON", .int 1⟩]⟩) :=
      ⟨⟨_, List.mem_singleton_self _, Or.inl .here⟩, by rw [hswitch]; rfl⟩
    have other : box.DefinesAmong [Procedure.mk "Get" switch box]
        (.ofFields "B" none [("x", .ofScalar .int)]) :=
      ⟨⟨_, List.mem_singleton_self _, Or.inr .here⟩, by rw [hbox]; rfl⟩
    exact absurd (apart _ _ _ _ one other rfl).1 (by decide)

end Exported

end RpcBridge.Client
