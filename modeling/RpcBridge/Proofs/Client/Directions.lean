import RpcBridge.Proofs.Client.Alike
import RpcBridge.Proofs.Client.Exporting

/-!
# Proofs/Client/Directions — both directions accept the same types

A value is converted on the way out and on the way back by different statements, but a type that is
refused on one way is refused on the other, for the same reason: what becomes of a conversion is
settled by the descriptor (`code_of_descriptor`), and so is the number of temporaries that it takes.
Neither direction touches what has been declared.

* `directions_agree` — the conversions of a descriptor, there and back.
-/

namespace RpcBridge.Client

/-- **What becomes of a conversion depends on the descriptor alone**: either every conversion of it
is generated, or every one fails with one and the same error, and all of them take as many
temporaries. -/
theorem code_of_descriptor (d : Descriptor) :
    ∃ taken, (∀ direction source target r, ∃ code,
        Yields (Resolver.code direction d source target) r code
          { r with counter := r.counter + taken }) ∨
      ∃ e, ∀ direction source target r, Fails (Resolver.code direction d source target) r e
        { r with counter := r.counter + taken } := by
  -- one conversion, to which all others are compared
  rcases yields_or_fails (convert .out d.shape Caller.params Caller.preparedParams) 0 with
    ⟨code, taken, first⟩ | ⟨e, taken, first⟩
  · refine ⟨taken, .inl fun direction source target r => ?_⟩
    obtain ⟨n, ⟨code', other, again, converted⟩ | ⟨e, failed, -⟩⟩ :=
      @convert_alike .out direction Caller.params Caller.preparedParams source target d.shape
        0 r.counter
    · cases first.symm.trans again
      rw [Nat.zero_add]
      exact ⟨other, yields_generating_iff.2 ⟨converted, rfl⟩⟩
    · exact (first.not_fails failed).elim
  · refine ⟨taken, .inr ⟨e, fun direction source target r => ?_⟩⟩
    obtain ⟨n, ⟨code, -, converted, -⟩ | ⟨e', again, failed⟩⟩ :=
      @convert_alike .out direction Caller.params Caller.preparedParams source target d.shape
        0 r.counter
    · exact (converted.not_fails first).elim
    · cases first.symm.trans again
      rw [Nat.zero_add]
      exact fails_generating_iff.2 ⟨failed, rfl⟩

/-- **Both directions accept the same types**: wherever the values stand and whatever has been
generated before, a conversion fails on the way out exactly if it fails on the way back, with the
same error.  Either way the declarations stay as they are, and both conversions take as many
temporaries. -/
theorem directions_agree (d : Descriptor) (source target source' target' : Place)
    (r r' : Resolver) :
    (∀ e, (∃ next, Fails (Resolver.code .out d source target) r e next) ↔
      ∃ next, Fails (Resolver.code .back d source' target') r' e next) ∧
    ∃ taken,
      r.after (Resolver.code .out d source target) = { r with counter := r.counter + taken } ∧
      r'.after (Resolver.code .back d source' target') =
        { r' with counter := r'.counter + taken } := by
  obtain ⟨taken, generated | ⟨e, failed⟩⟩ := code_of_descriptor d
  · obtain ⟨sent, out⟩ := generated .out source target r
    obtain ⟨received, back⟩ := generated .back source' target' r'
    refine ⟨fun e => ⟨?_, ?_⟩, taken, after_of_yields out, after_of_yields back⟩
    · rintro ⟨next, failed⟩
      exact (out.not_fails failed).elim
    · rintro ⟨next, failed⟩
      exact (back.not_fails failed).elim
  · have out := failed .out source target r
    have back := failed .back source' target' r'
    refine ⟨fun e' => ⟨?_, ?_⟩, taken, after_of_fails out, after_of_fails back⟩
    · rintro ⟨next, again⟩
      cases out.symm.trans again
      exact ⟨_, back⟩
    · rintro ⟨next, again⟩
      cases back.symm.trans again
      exact ⟨_, out⟩

end RpcBridge.Client
