import Warmup.Proofs.Reconstruction
import Warmup.Proofs.UpToDate

/-!
# Positions of sends

No two sends of a graph stand at the same position of the same scope
(`Compiler.graph_positions`): what a callee gives has scopes of its own, behind that
of the caller, and the sends of a method have different positions. So a send of the
code that is emitted has a cache or a trap, never both (`Compiler.compile_apart`).
Caches and traps stay where they are when the code is used
(`NativeMethod.LaidOutAs`, `Compiler.laidOut_apart`).
-/

namespace Warmup

namespace Fragment

variable {f f' : Fragment} {next : Offset}

/-- The scope and position of every send of a part. -/
def positions (f : Fragment) : List (Offset × Bci) := f.sends.map fun x => (x.scope, x.bci)

/-- The sends of a part from the offset `next` on stand at different positions: some at
    given positions of a scope before the part, the others in its own scopes. -/
structure Spread (f : Fragment) (o : Offset) (bcis : List Bci) (next : Offset) : Prop where
  nodup : f.positions.Nodup
  within : ∀ x ∈ f.positions, (x.1 = o ∧ x.2 ∈ bcis) ∨ next ≤ x.1 ∧ x.1 < next + f.scopes.length

variable {o : Offset} {bcis bcis' : List Bci}

theorem Spread.empty (h : f.sends = []) : f.Spread o bcis next := by
  have hpositions : f.positions = [] := by rw [positions, h, List.map_nil]
  exact ⟨hpositions ▸ List.nodup_nil, fun _ hx => absurd (hpositions ▸ hx) List.not_mem_nil⟩

/-- Parts one after the other are spread if the scope before them sends at different
    positions in both. -/
theorem Spread.append (h : f.Spread o bcis next) (h' : f'.Spread o bcis' (next + f.scopes.length))
    (ho : o < next) (hdisjoint : ∀ b ∈ bcis, b ∉ bcis') :
    (f.append f').Spread o (bcis ++ bcis') next := by
  have hpositions : (f.append f').positions = f.positions ++ f'.positions := List.map_append
  have hlength : (f.append f').scopes.length = f.scopes.length + f'.scopes.length :=
    List.length_append
  constructor
  · rw [hpositions]
    refine List.nodup_append.2 ⟨h.nodup, h'.nodup, ?_⟩
    rintro x hx _ hy rfl
    -- The sends of the caller have different positions, and the parts have scopes of their own.
    rcases h.within x hx with ⟨hx, hmem⟩ | ⟨hle, hlt⟩ <;> rcases h'.within x hy
      with ⟨hy, hmem'⟩ | ⟨hle', hlt'⟩
    · exact hdisjoint _ hmem hmem'
    · lia
    · lia
    · lia
  · intro x hx
    rw [hlength]
    rcases List.mem_append.1 (hpositions ▸ hx) with hx | hx
    · rcases h.within x hx with ⟨hx, hmem⟩ | hx
      · exact .inl ⟨hx, List.mem_append_left _ hmem⟩
      · exact .inr (by lia)
    · rcases h'.within x hx with ⟨hx, hmem⟩ | hx
      · exact .inl ⟨hx, List.mem_append_right _ hmem⟩
      · exact .inr (by lia)

/-- What a scope gives, the scope itself included, has scopes of its own only. -/
theorem Spread.headed {s : CompileScope} (h : f.Spread s.id bcis (s.id + 1)) :
    (f.headed s).Spread o [] s.id where
  nodup := h.nodup
  within x hx := by
    have hlength : (f.headed s).scopes.length = f.scopes.length + 1 := rfl
    rcases h.within x hx with ⟨hx, -⟩ | hx
    · exact .inr (by lia)
    · exact .inr (by lia)

theorem Spread.ofSend (s : CompileScope) (site : SendSite) (r : Resolution) (next : Offset) :
    (ofSend s site r).Spread s.id [site.bci] next where
  nodup := List.nodup_singleton _
  within x hx := .inl (by rw [List.mem_singleton.1 hx]; exact ⟨rfl, List.mem_singleton.2 rfl⟩)

end Fragment

/-- If sends stand at different positions, none has both a cache and a trap. -/
theorem SendGraph.code_apart {g : SendGraph}
    (hpositions : (g.sends.map fun x => (x.scope, x.bci)).Nodup) (size : Nat) {x : CallSite}
    (hx : x ∈ (g.code size).sites) {y : TrapSite} (hy : y ∈ (g.code size).traps) :
    ¬(y.scope = x.scope ∧ y.bci = x.bci) := by
  rintro ⟨hscope, hbci⟩
  obtain ⟨u, hu, hsite⟩ := List.mem_filterMap.1 hx
  obtain ⟨v, hv, htrap⟩ := List.mem_filterMap.1 hy
  rw [List.mem_mergeSort] at hu hv
  obtain ⟨q, hq, rfl⟩ := Option.map_eq_some_iff.1 hsite
  obtain ⟨z, hz, rfl⟩ := Option.map_eq_some_iff.1 htrap
  obtain rfl : v = u := List.inj_on_of_nodup_map hpositions hv hu (Prod.ext hscope hbci)
  rcases hr : v.resolution with _ | ⟨arms, _ | _⟩ | _ | _ <;>
    simp [hr, Resolution.send?, Resolution.trap?] at hq hz

namespace Compiler

variable {c : Compiler} {t : FeedbackTree} {n : Nat} {a : Caller} {next : Offset} {f : Fragment}

/-- The positions of the sends of some work. -/
def Work.bcis : Work → List Bci
  | attempts _ _ _ => []
  | sends sites => sites.map (·.bci)

/-- The sends of a method have different positions. -/
theorem nodup_bcis (hw : c.classes.WellFormed) (s : CompileScope) :
    (Work.sends (c.sendsOf s)).bcis.Nodup := by
  rcases hm : c.classes.method? s.method with _ | m
  · rw [sendsOf, hm]
    exact List.nodup_nil
  · rw [sendsOf_eq hm]
    exact List.pairwise_map.2 (hw.positions _ m hm)

/-- The sends of a scope stand at their own positions, those of its callees in
    scopes that come later. -/
theorem Grows.spread (hw : c.classes.WellFormed) {w : Work} (h : c.Grows t n a w next f)
    (hbcis : w.bcis.Nodup) (ha : a.scope.id < next) : f.Spread a.scope.id w.bcis next := by
  induction h with
  | tried => exact .empty rfl
  | @refused n a site d ds arms next f why _ _ ih =>
    have hnone : (Fragment.ofRejection why).Spread a.scope.id [] next := .empty rfl
    exact hnone.append (ih hbcis ha) ha (by simp)
  -- The callee's sends lie in its own scopes, and leave all positions of the caller free.
  | @enter n a site d ds arms b f f' henter _ _ _ ih ih' =>
    have hbelow := (ih (nodup_bcis hw b.scope) (Nat.lt_succ_self _)).headed (o := a.scope.id)
    exact hbelow.append (ih' hbcis (Nat.lt_add_right _ ha)) ha (by simp)
  | sent => exact .empty rfl
  -- The send itself takes its position, behind what was inlined there.
  | @send n a site sites arms next f f' _ _ _ ih ih' =>
    obtain ⟨hsite, hsites⟩ := List.nodup_cons.1 hbcis
    have hpart : (f.count (c.settle t a.scope site arms).stats).Spread a.scope.id [] next :=
      ⟨(ih List.nodup_nil ha).nodup, (ih List.nodup_nil ha).within⟩
    have hrest := (Fragment.Spread.ofSend a.scope site (c.settle t a.scope site arms)
      (next + f.scopes.length)).append
      (ih' hsites (Nat.lt_add_right _ ha)) (Nat.lt_add_right _ ha)
      (by simpa [Work.bcis] using hsite)
    exact hpart.append hrest ha (by simp)

variable {key : LookupKey} {method : MethodId} {level : Nat} {g : SendGraph} {stats : InliningStats}
  {comp : Compilation}

/-- No two sends of a graph stand at the same position of the same scope. -/
theorem graph_positions (hw : c.classes.WellFormed)
    (h : c.graph t key method level = .ok (g, stats)) :
    (g.sends.map fun x => (x.scope, x.bci)).Nodup := by
  obtain ⟨m, part, -, hexp, -, hsends, -⟩ := graph_ok h
  obtain ⟨rest, rfl, hgrows⟩ := expand_grows _ _ _ hexp
  rw [← hsends]
  exact (hgrows.spread hw (nodup_bcis hw _) (Nat.lt_succ_self _)).nodup

/-- No trap of code stands where one of its caches does. -/
theorem compile_apart (hw : c.classes.WellFormed) (h : c.compile t key method level = .ok comp)
    {x : CallSite} (hx : x ∈ comp.native.sites) {y : TrapSite} (hy : y ∈ comp.native.traps) :
    ¬(y.scope = x.scope ∧ y.bci = x.bci) := by
  obtain ⟨hgraph, hemit⟩ := compile_ok h
  obtain ⟨size, hn⟩ := SendGraph.exists_code_of_emit hemit
  rw [hn] at hx hy
  exact SendGraph.code_apart (graph_positions hw hgraph) size hx hy

end Compiler

/-! ## Code in use -/

/-- Code after some use: its scopes are those of the code it was, and its caches and
    traps are where that had caches and traps, whatever has become of them. -/
structure NativeMethod.LaidOutAs (n n' : NativeMethod) : Prop where
  scopes : n.scopes = n'.scopes
  sites : ∀ s ∈ n.sites, ∃ s' ∈ n'.sites, s'.scope = s.scope ∧ s'.bci = s.bci
  traps : ∀ s ∈ n.traps, ∃ s' ∈ n'.traps, s'.scope = s.scope ∧ s'.bci = s.bci

theorem NativeMethod.LaidOutAs.refl (n : NativeMethod) : n.LaidOutAs n :=
  ⟨rfl, fun s hs => ⟨s, hs, rfl, rfl⟩, fun s hs => ⟨s, hs, rfl, rfl⟩⟩

namespace Compiler

variable {c : Compiler} {t : FeedbackTree} {key : LookupKey} {method : MethodId} {level : Nat}
  {comp : Compilation} {n : NativeMethod} (h : c.compile t key method level = .ok comp)
  (hn : n.LaidOutAs comp.native)
include h hn

/-- The scopes of code are those of its graph. -/
theorem laidOut_preordered : Preordered comp.graph.scopes ∧ comp.graph.scopes ≠ [] ∧
    n.scopes = comp.graph.scopes.map (·.desc) := by
  obtain ⟨hgraph, hemit⟩ := compile_ok h
  exact ⟨graph_preordered hgraph, graph_scopes_ne_nil hgraph,
    hn.scopes.trans (SendGraph.emit_ok hemit).2.2.1⟩

/-- Code in use has a cache or a trap for a send, never both. -/
theorem laidOut_apart (hw : c.classes.WellFormed) {x : CallSite} (hx : x ∈ n.sites) {y : TrapSite}
    (hy : y ∈ n.traps) :
    ¬(y.scope = x.scope ∧ y.bci = x.bci) := by
  obtain ⟨x', hx', hxscope, hxbci⟩ := hn.sites x hx
  obtain ⟨y', hy', hyscope, hybci⟩ := hn.traps y hy
  rw [← hxscope, ← hxbci, ← hyscope, ← hybci]
  exact compile_apart hw h hx' hy'

end Compiler

end Warmup
