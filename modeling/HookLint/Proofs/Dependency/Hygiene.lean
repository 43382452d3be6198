import HookLint.Proofs.Dependency.References
import HookLint.Proofs.Scope.CallSpan

/-!
# Proofs.Dependency.Hygiene — a dependency means in the array what it means in the callback

The references of a site are resolved deep inside of its callback, but their paths are written into
the array, which is read in the scope of the site.  `references_hygienic` says that nothing gets
lost on the way: when the walk meets the call, the name of every binding among the references
resolves from the scope of the site to that binding.

The uses of a callback lie in the range of the call, so they mean what they mean where the call
stands (`Proofs.Scope.CallSpan`), unless they are declared inside of it; and the scope of a
reference is around the site, so it is older than everything inside of the call.
-/

namespace HookLint.Dependency

open Syntax Syntax.Node Scope Hook

/-! ### Sites and their calls -/

section Sites

variable {registry : Registry} {src : Source} {site : Site}

/-- A site is a recorded call; the dependencies stand right after the callback. -/
theorem exists_index_of_classify? {call : CallSite}
    (h : registry.classify? src call = some site) : ∃ i,
      call.node.arguments[i]? = some site.callback ∧
      call.node.arguments[i + 1]? = site.dependencies ∧
      site.node = call.node ∧ site.scope = call.scope := by
  unfold Registry.classify? at h
  simp only [Option.bind_eq_bind, Option.bind_eq_some_iff] at h
  obtain ⟨name, -, shape, -, callback, hcallback, h⟩ := h
  split at h
  · cases h
  · obtain rfl := Option.some.inj h
    exact ⟨shape.callbackIndex, hcallback, rfl, rfl, rfl⟩

/-- A site is a recorded call whose callback is one of the arguments. -/
theorem of_classify? {call : CallSite} (h : registry.classify? src call = some site) :
    site.node = call.node ∧ site.scope = call.scope ∧ site.callback ∈ call.node.arguments := by
  obtain ⟨i, hcallback, -, hnode, hscope⟩ := exists_index_of_classify? h
  exact ⟨hnode, hscope, List.mem_of_getElem? hcallback⟩

/-- What a fold over calls holds at its end comes from its start or from one of the calls. -/
theorem mem_values_foldl {f : Sites → CallSite → Sites} {P : CallSite → Prop}
    (hf : ∀ m call, site ∈ Assoc.values (f m call) → site ∈ Assoc.values m ∨ P call)
    (calls : List CallSite) (m : Sites) (h : site ∈ Assoc.values (calls.foldl f m)) :
    site ∈ Assoc.values m ∨ ∃ call ∈ calls, P call := by
  induction calls generalizing m with
  | nil => exact Or.inl h
  | cons call calls ih =>
    rcases ih _ h with h | ⟨later, hlater, hsite⟩
    · exact (hf m call h).imp_right fun hp => ⟨call, List.mem_cons_self, hp⟩
    · exact Or.inr ⟨later, List.mem_cons_of_mem _ hlater, hsite⟩

theorem exists_call_of_mem_sites {t : Tree} (h : site ∈ Assoc.values (registry.sites src t)) :
    ∃ call ∈ t.calls, registry.classify? src call = some site := by
  have hfold := mem_values_foldl (P := fun call => registry.classify? src call = some site)
    (fun m call hm => ?_) t.calls.toList [] h
  · rcases hfold with hnil | ⟨call, hcall, hsite⟩
    · cases hnil
    · exact ⟨call, Array.mem_toList_iff.mp hcall, hsite⟩
  · split at hm
    · next found hc =>
      rcases Assoc.mem_values_put hm with rfl | hm
      · exact Or.inr hc
      · exact Or.inl hm
    · exact Or.inl hm

theorem exists_list_of_mem_arguments {n c : Node} (hc : c ∈ n.arguments) :
    ∃ list, n.child? .arguments = some list ∧ list.kind = .arguments ∧ c ∈ list.elements := by
  unfold Node.arguments at hc
  split at hc
  · next list hl =>
    split at hc
    · next hk => exact ⟨list, hl, hk, hc⟩
    · cases hc
  · cases hc

theorem contains_of_mem_arguments {n c : Node} (h : n.WellFormed) (hc : c ∈ n.arguments) :
    n.contains c = true := by
  obtain ⟨list, hl, -, hc⟩ := exists_list_of_mem_arguments hc
  have hlist := mem_children_of_child? hl
  have hin := (h.child hlist).contains_child (mem_children_of_mem_elements hc)
  exact contains_trans (h.contains_child hlist) hin

end Sites

/-! ### Hygiene -/

section Hygiene

variable {registry : Registry} {src : Source} {root : Node} {site : Site} {s : Store} {b : Binding}

/-- The walk of a program meets the call of a site, in the scope of the site, when the store is
`s`. -/
def MeetsCall (src : Source) (root : Node) (site : Site) (s : Store) : Prop :=
  ∃ before after, moduleEvents src root = before ++ .call site.node :: after ∧
    (before.foldl (Tree.step src) {}).store = s ∧ s.current = some site.scope

theorem exists_meetsCall (h : site ∈ Assoc.values (registry.sites src (Tree.ofProgram src root))) :
    ∃ s, MeetsCall src root site s := by
  obtain ⟨call, hcall, hsite⟩ := exists_call_of_mem_sites h
  obtain ⟨hnode, hscope, -⟩ := of_classify? hsite
  rcases Tree.exists_split_of_mem_calls hcall with hnone | ⟨before, after, he, hcur⟩
  · simp at hnone
  · exact ⟨_, before, after, by rw [hnode]; exact he, rfl, by rw [hscope]; exact hcur⟩

/-- A binding that a callback mentions is what its name means where the call is met. -/
theorem resolveFrom_of_mentions (hroot : root.WellFormed)
    (hsite : site ∈ Assoc.values (registry.sites src (Tree.ofProgram src root)))
    (hs : MeetsCall src root site s)
    (hb : (references src (Tree.ofProgram src root) site).Mentions b) :
    s.resolveFrom b.name site.scope = some b.id := by
  obtain ⟨before, after, he, rfl, hcur⟩ := hs
  obtain ⟨call, -, hclass⟩ := exists_call_of_mem_sites hsite
  obtain ⟨hnode, -, hargument⟩ := of_classify? hclass
  obtain ⟨hout, u, hu, hub⟩ := exists_use_of_mentions hb
  have hvalid := Tree.valid_ofProgram src root
  -- the use lies in the callback, so in the call
  obtain ⟨hmem, hcallback⟩ := List.mem_filter.mp hu
  have hwf : site.node.WellFormed := (callSpan_moduleEvents src hroot he).wellFormed
  rw [← hnode] at hargument
  have hin := contains_trans (contains_of_mem_arguments hwf hargument) hcallback
  obtain ⟨hid, hfinal⟩ := Tree.id_of_bindingOf? hvalid hub
  obtain ⟨c, hc, hname, hres⟩ := lexical_of_contains hroot he hcur hmem hin b.id hid
  obtain rfl : b = c := Option.some.inj (hfinal.symm.trans hc)
  -- its scope is around the site, so it was there when the call was met
  have hold : b.scope < (before.foldl (Tree.step src) {}).store.scopes.size := by
    have hle := Store.le_of_mem_region hout.1
    have hlt := (Tree.valid_foldl Store.valid_empty before).current_lt hcur
    omega
  rw [hname]
  exact hres hold

/-- **References are hygienic.**  In a well-formed program, the walk meets the call of every site,
and whenever it does, the name of every binding that the callback depends on or writes resolves,
from the scope of the site, to that binding.  So different dependencies of a site have different
names. -/
theorem references_hygienic (registry : Registry) (src : Source) {root : Node}
    (hroot : root.WellFormed) {site : Site}
    (hsite : site ∈ Assoc.values (registry.sites src (Tree.ofProgram src root))) :
    let refs := references src (Tree.ofProgram src root) site
    (∃ s, MeetsCall src root site s) ∧
    (∀ s, MeetsCall src root site s → ∀ b, refs.Mentions b →
      s.resolve b.name (some site.scope) = .ok (some b.id)) ∧
    ∀ d ∈ Assoc.values refs.dependencies, ∀ e ∈ Assoc.values refs.dependencies,
      d.binding.name = e.binding.name → d = e := by
  intro refs
  have hmeets := exists_meetsCall hsite
  refine ⟨hmeets, fun s hs b hb => ?_, fun d hd e he hname => ?_⟩
  · unfold Store.resolve
    simp only
    rw [resolveFrom_of_mentions hroot hsite hs hb]
  · obtain ⟨s, hs⟩ := hmeets
    have hresd := resolveFrom_of_mentions hroot hsite hs (Or.inl ⟨d, hd, rfl⟩)
    have hrese := resolveFrom_of_mentions hroot hsite hs (Or.inl ⟨e, he, rfl⟩)
    rw [hname, hrese] at hresd
    exact eq_of_id_eq hd he (Option.some.inj hresd).symm

/-- The effect of a small component: its callback depends on a parameter. -/
theorem references_hygienic_effect : effectProgram.WellFormed ∧
    ∃ site ∈ Assoc.values ((Registry.mk builtinHooks none).sites effectText
        (Tree.ofProgram effectText effectProgram)),
      ∃ s b, MeetsCall effectText effectProgram site s ∧
        (references effectText (Tree.ofProgram effectText effectProgram) site).Mentions b ∧
        s.resolve b.name (some site.scope) = .ok (some b.id) := by
  have hany : ((Assoc.values ((Registry.mk builtinHooks none).sites effectText
      (Tree.ofProgram effectText effectProgram))).any fun site =>
        (Assoc.values (references effectText (Tree.ofProgram effectText effectProgram)
          site).dependencies).any fun d => d.binding.name = "p") = true := by decide +kernel
  obtain ⟨site, hsite, hdep⟩ := List.any_eq_true.mp hany
  obtain ⟨d, hd, -⟩ := List.any_eq_true.mp hdep
  obtain ⟨⟨s, hs⟩, hres, -⟩ := references_hygienic _ effectText wellFormed_effectProgram hsite
  exact ⟨wellFormed_effectProgram, site, hsite, s, d.binding, hs, Or.inl ⟨d, hd, rfl⟩,
    hres s hs d.binding (Or.inl ⟨d, hd, rfl⟩)⟩

end Hygiene

end HookLint.Dependency
