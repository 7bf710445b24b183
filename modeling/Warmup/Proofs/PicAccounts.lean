import Warmup.Proofs.CodeHistory
import Warmup.Proofs.PicLedger
import Warmup.Proofs.Redefinition
import Warmup.Proofs.Upkeep

/-!
# The accounts of a run

At every moment of a run the space for pics accounts for the pics that all caches hold, those of
the interpreter and those of code, be it valid or not (`Engine.heldPics`, `Engine.Balanced`). Every
event books with the space what its caches give back and ask for (`Engine.picBookings`), and all
that it gives back was in use (`books_step`).

A cache that has changed is put back into the place where it was found. For the caches of the
interpreter this needs the order of their sends (`SiteTable.Sorted`).
-/

namespace Warmup

/-! ## The order of interpreted sends -/

namespace SiteTable

open PicSpace

variable {t : SiteTable} {m : MethodId} {bci : Bci} {c : InlineCache} {l l' : List InterpretedSite}
  {isCurrent : LookupKey → Target → Bool} {p q r : MethodId × Bci}

/-- Where a send stands. -/
def place (s : InterpretedSite) : MethodId × Bci := (s.method, s.bci)

/-- A place before another one. -/
def Before (p q : MethodId × Bci) : Prop := p.1.index < q.1.index ∨ p.1 = q.1 ∧ p.2 < q.2

theorem Before.trans (h : Before p q) (h' : Before q r) : Before p r := by
  rcases h with h | ⟨h, hlt⟩
  · rcases h' with h' | ⟨h', -⟩
    · exact .inl (Nat.lt_trans h h')
    · exact .inl (h' ▸ h)
  · rcases h' with h' | ⟨h', hlt'⟩
    · exact .inl (h ▸ h')
    · exact .inr ⟨h.trans h', Nat.lt_trans hlt hlt'⟩

theorem Before.ne (h : Before p q) : p ≠ q := by
  rintro rfl
  rcases h with h | ⟨-, h⟩
  · exact Nat.lt_irrefl _ h
  · exact Nat.lt_irrefl _ h

theorem before_of_not (hne : q ≠ p) (h : ¬Before p q) : Before q p := by
  rcases Nat.lt_trichotomy q.1.index p.1.index with hlt | heq | hgt
  · exact .inl hlt
  · have hm : q.1 = p.1 := congrArg MethodId.mk heq
    rcases Nat.lt_trichotomy q.2 p.2 with hlt | heq | hgt
    · exact .inr ⟨hm, hlt⟩
    · exact absurd (Prod.ext hm heq) hne
    · exact absurd (.inr ⟨hm.symm, hgt⟩) h
  · exact absurd (.inl hgt) h

theorem before_iff {s : InterpretedSite} : before m bci s ↔ Before (m, bci) (place s) := by
  simp [before, Before, place]

/-- The sends stand in the order of their places. -/
def SortedSites (l : List InterpretedSite) : Prop := (l.map place).Pairwise Before

/-- The caches stand in the order of their sends. -/
def Sorted (t : SiteTable) : Prop := SortedSites t.sites

theorem sortedSites_cons {s : InterpretedSite} :
    SortedSites (s :: l) ↔ (∀ s' ∈ l, Before (place s) (place s')) ∧ SortedSites l := by
  simp [SortedSites]

/-- A cache is inserted where the order wants it. -/
theorem sortedSites_insertSite (h : SortedSites l) (m : MethodId) (bci : Bci) (c : InlineCache) :
    SortedSites (insertSite m bci c l) := by
  induction l with
  | nil => simp [insertSite, SortedSites]
  | cons s l ih =>
    obtain ⟨hs, hl⟩ := sortedSites_cons.1 h
    rw [insertSite]
    split
    · next hplace =>
      obtain ⟨rfl, rfl⟩ := hplace
      exact sortedSites_cons.2 ⟨hs, hl⟩
    · next hplace =>
      split
      · next hb =>
        have hb := before_iff.1 hb
        refine sortedSites_cons.2 ⟨fun s' hs' => ?_, h⟩
        rcases List.mem_cons.1 hs' with rfl | hs'
        · exact hb
        · exact hb.trans (hs s' hs')
      · next hb =>
        refine sortedSites_cons.2 ⟨fun s' hs' => ?_, ih hl⟩
        rcases mem_insertSite hs' with rfl | hs'
        · refine before_of_not (fun heq => ?_) fun h => hb (before_iff.2 h)
          exact hplace (Prod.mk.inj heq)
        · exact hs s' hs'

/-- A cache is put where the cache of its send is, or between others. -/
theorem exists_insertSite (h : SortedSites l) (m : MethodId) (bci : Bci) :
    ∃ l₁ l₂, l = l₁ ++ (l.find? fun s => s.method = m ∧ s.bci = bci).toList ++ l₂ ∧
      ∀ c, insertSite m bci c l = l₁ ++ [⟨m, bci, c⟩] ++ l₂ := by
  induction l with
  | nil => exact ⟨[], [], rfl, fun _ => rfl⟩
  | cons s l ih =>
    obtain ⟨hs, hl⟩ := sortedSites_cons.1 h
    by_cases hplace : s.method = m ∧ s.bci = bci
    · refine ⟨[], l, ?_, fun c => ?_⟩
      · rw [List.find?_cons_of_pos (by simpa using hplace)]
        rfl
      · rw [insertSite, if_pos hplace]
        rfl
    · by_cases hb : before m bci s
      · -- The send comes before all others, so it has no cache.
        have hnone : (s :: l).find? (fun s => s.method = m ∧ s.bci = bci) = none := by
          rw [List.find?_eq_none]
          intro s' hs' hplace'
          have hb' : Before (m, bci) (place s') := by
            rcases List.mem_cons.1 hs' with rfl | hs'
            · exact before_iff.1 hb
            · exact (before_iff.1 hb).trans (hs s' hs')
          obtain ⟨rfl, rfl⟩ := of_decide_eq_true hplace'
          exact hb'.ne rfl
        refine ⟨[], s :: l, ?_, fun c => ?_⟩
        · rw [hnone]
          rfl
        · rw [insertSite, if_neg hplace, if_pos hb]
          rfl
      · obtain ⟨l₁, l₂, hsplit, hinsert⟩ := ih hl
        refine ⟨s :: l₁, l₂, ?_, fun c => ?_⟩
        · rw [List.find?_cons_of_neg (by simpa using hplace), List.cons_append,
            List.cons_append, ← hsplit]
        · rw [insertSite, if_neg hplace, if_neg hb, hinsert, List.cons_append, List.cons_append]

theorem Sorted.put (h : t.Sorted) (m : MethodId) (bci : Bci) (c : InlineCache) :
    (t.put m bci c).Sorted :=
  sortedSites_insertSite h m bci c

theorem Sorted.ensure (h : t.Sorted) (m : MethodId) (bci : Bci) (c : InlineCache) :
    (t.ensure m bci c).Sorted := by
  rw [SiteTable.ensure]
  split
  · exact h
  · exact h.put m bci c

theorem Sorted.removeMethod (h : t.Sorted) (m : MethodId) (space : PicSpace) :
    (t.removeMethod m space).1.Sorted :=
  List.Pairwise.sublist (List.filter_sublist.map place) h

/-- A cleanup changes caches in their places. -/
theorem Sorted.cleanup (h : t.Sorted) (isCurrent : LookupKey → Target → Bool) (space : PicSpace) :
    (t.cleanup isCurrent space).2.1.Sorted := by
  have hplaces (l : List InterpretedSite) (space : PicSpace) :
      (cleanupSites isCurrent l space).2.1.map place = l.map place := by
    induction l generalizing space with
    | nil => rfl
    | cons s l ih => exact congrArg (place s :: ·) (ih _)
  rw [Sorted, SortedSites, SiteTable.cleanup, hplaces]
  exact h

/-! ## The pics of a table -/

theorem picsOf_append (l l' : List InterpretedSite) : picsOf (l ++ l') = picsOf l ++ picsOf l' :=
  List.flatMap_append

/-- The pics of the cache of one send, and those of the others. -/
theorem exists_pics_put (h : t.Sorted) (m : MethodId) (bci : Bci) (hc : c.dest = .stub) :
    ∃ L R, t.pics = L ++ ((t.cache? m bci).getD c).pics ++ R ∧ ∀ c',
      (t.put m bci c').pics = L ++ c'.pics ++ R := by
  obtain ⟨l₁, l₂, hsplit, hinsert⟩ := exists_insertSite h m bci
  refine ⟨picsOf l₁, picsOf l₂, ?_, fun c' => ?_⟩
  · rw [cache?, pics]
    -- There was a cache at this place, or the new one takes no pics away.
    generalize t.sites.find? (fun s => s.method = m ∧ s.bci = bci) = o at hsplit
    have hfound : picsOf o.toList = ((o.map (·.cache)).getD c).pics := by
      rcases o with _ | s
      · show [] = c.pics
        rw [InlineCache.pics, hc]
      · exact List.append_nil _
    rw [hsplit, picsOf_append, picsOf_append, hfound]
  · rw [pics, put, hinsert, picsOf_append, picsOf_append]
    simp [picsOf]

/-- Linking a send adds no pic. -/
theorem pics_ensure (h : t.Sorted) (m : MethodId) (bci : Bci) (hc : c.dest = .stub) :
    (t.ensure m bci c).pics = t.pics := by
  rw [SiteTable.ensure]
  split
  · rfl
  · next hnone =>
    obtain ⟨L, R, hpics, hput⟩ := exists_pics_put h m bci hc
    rw [hput, hpics, hnone]
    rfl

end SiteTable

/-! ## The pics of code -/

namespace CodeTable

variable {t t' : CodeTable} {n : NativeMethod} {i : NativeId}

/-- The pics that the caches of code hold, be it valid or not. -/
def pics (t : CodeTable) : List Pic := t.methods.flatMap NativeMethod.pics

theorem pics_eq (t : CodeTable) : t.pics = (t.methods.map NativeMethod.pics).flatten :=
  List.flatMap_def

/-- Code is installed with caches that hold no pics. -/
theorem pics_install (h : t.install n = .ok (t', i)) (hn : n.All (·.dest = .stub)) :
    t'.pics = t.pics := by
  have hempty : n.pics = [] := by
    rw [NativeMethod.pics, List.flatMap_eq_nil_iff]
    intro s hs
    rw [InlineCache.pics, hn s hs]
  rw [pics_eq, map_install (fun _ _ => rfl) h, pics_eq, List.flatten_append]
  show _ ++ [n.pics].flatten = _
  rw [hempty]
  exact List.append_nil _

/-- The pics of code are those of its sites. -/
theorem pics_modify {f : NativeMethod → NativeMethod}
    (hf : ∀ n, t.get? i = some n → (f n).sites = n.sites) :
    (t.modify i f).pics = t.pics := by
  rw [pics_eq, pics_eq, modify, map_modify_eq]
  intro n hn
  rw [NativeMethod.pics, hf n hn, NativeMethod.pics]

/-- Invalid code still holds its pics. -/
theorem pics_invalidate (t : CodeTable) (i : NativeId) : (t.invalidate i).2.pics = t.pics := by
  rw [pics_eq, map_invalidate (fun _ _ => rfl), pics_eq]

theorem pics_invalidateDependents (t : CodeTable) (m : MethodId) :
    (t.invalidateDependents m).2.pics = t.pics :=
  invalidateDependents_induction (P := fun t' => t'.pics = t.pics)
    (fun t' i h => (t'.pics_invalidate i).trans h) rfl m

/-- The pics of one call site, and those of the others. -/
theorem exists_pics_set {site : Nat} {s : CallSite} (hn : t.get? i = some n)
    (hs : n.sites[site]? = some s) :
    ∃ L R, t.pics = L ++ s.cache.pics ++ R ∧ ∀ c,
      (t.modify i fun m => { m with sites := m.sites.set site { s with cache := c } }).pics = L ++
        c.pics ++ R := by
  obtain ⟨L, R, hpics, hmodify⟩ := exists_flatMap_modify hn NativeMethod.pics
  obtain ⟨L', R', hpics', hset⟩ := exists_flatMap_modify hs fun s => s.cache.pics
  refine ⟨L ++ L', R' ++ R, ?_, fun c => ?_⟩
  · rw [pics, hpics, NativeMethod.pics, hpics']
    simp only [List.append_assoc]
  · rw [pics, modify, hmodify, NativeMethod.pics]
    simp only [List.set_eq_modify, hset, List.append_assoc]

end CodeTable

/-! ## What events book -/

namespace Engine

open PicSpace

variable {e e' e'' : Engine} {c : InlineCache} {r : ClassId} {s : Settings}
  {ops ops' : List Booking}

/-- The pics that caches hold, those of interpreted sends and those of all code. -/
def heldPics (e : Engine) : List Pic := e.sites.pics ++ e.code.pics

/-- What a send through a cache books. -/
def dispatchBookings (e : Engine) (c : InlineCache) (r : ClassId) : List Booking :=
  match c.cached? r with
  | some _ => []
  | none => c.missBookings r (e.target (c.lookupKey r)).1 e.settings.caches.maxEntries.toNat

/-- What a cleanup books. -/
def cleanupBookings (e : Engine) : List Booking :=
  e.sites.cleanupBookings e.isCurrent ++ nativeBookings e.isCurrent e.code.methods

/-- What is booked when all that was built on a method is taken back. -/
def retractBookings (e : Engine) (old : MethodId) : List Booking :=
  if (e.classes.method? old).any (·.superseded) then e.sites.removeBookings old else []

/-- What a new method books. -/
def replaceBookings (e : Engine) (c : ClassId) (d : Draft) : List Booking :=
  match e.classes.addMethod c d with
  | .error _ => []
  | .ok (classes, _) =>
    let e₁ := { e with classes := classes, memo := e.memo.flush }
    match e.classes.lookup c d.selector with
    | none => e₁.cleanupBookings
    | some old => e₁.retractBookings old ++ (e₁.retract old).cleanupBookings

/-- What an event books. -/
def picBookings (e : Engine) : Event → List Booking
  | .send p r => (e.cacheAt? p).elim [] fun c => e.dispatchBookings c r
  | .replace c d => e.replaceBookings c d
  | .cleanup => e.cleanupBookings
  | _ => []

/-- The tables are in order. -/
structure InOrder (e : Engine) : Prop where
  code : e.code.WellFormed
  sites : e.sites.Sorted

/-- What happens from `e` to `e'` keeps the tables in order, and books `ops`. -/
structure Books (e : Engine) (ops : List Booking) (e' : Engine) : Prop where
  inOrder : e'.InOrder
  trades : e.pics.Trades ops e'.pics e.heldPics e'.heldPics

theorem Books.trans (h : e.Books ops e') (h' : e'.Books ops' e'') : e.Books (ops ++ ops') e'' :=
  ⟨h'.inOrder, h.trades.trans h'.trades⟩

/-- Nothing is booked where no cache has another pic. -/
theorem Books.of_eq (h : e'.InOrder) (hpics : e'.pics = e.pics) (hheld : e'.heldPics = e.heldPics) :
    e.Books [] e' := by
  refine ⟨h, ?_⟩
  rw [hpics, hheld]
  exact .refl e.pics e.heldPics

theorem Books.refl (h : e.InOrder) : e.Books [] e := .of_eq h rfl rfl

/-! ### Sends -/

/-- A dispatch books what the cache gives back and asks for. -/
theorem trades_dispatch (e : Engine) (c : InlineCache) (r : ClassId) :
    e.pics.Trades (e.dispatchBookings c r)
      (e.dispatch c r e.settings.caches.maxEntries.toNat).1.pics c.pics
      (e.dispatch c r e.settings.caches.maxEntries.toNat).2.2.pics := by
  rcases h : c.cached? r with _ | t
  · simp only [dispatchBookings, dispatch, h]
    exact c.trades_miss r _ e.pics _
  · simp only [dispatchBookings, dispatch, h]
    exact .refl e.pics c.pics

/-- A send through the cache of an interpreted send, which is put back to where it stood. -/
theorem books_interpreted (h : e.InOrder) {m : MethodId} {bci : Bci}
    (hc : e.cacheAt? (.interpreted m bci) = some c) (r : ClassId) :
    e.Books (e.dispatchBookings c r) (e.sendInterpreted m bci r).state := by
  have hcode := (served_interpreted hc r).advances.code h.code
  obtain ⟨method, hm, hc⟩ := Option.bind_eq_some_iff.1 hc
  obtain ⟨s, hs, hc⟩ := Option.bind_eq_some_iff.1 hc
  have hc : (e.sites.cache? m bci).getD (e.freshSite method s) = c := Option.some.inj hc
  have hmethod : e.classes.method m = .ok method := by rw [ClassTable.method, hm]
  -- The cache is one place in the list of all pics, and the rest is a frame.
  obtain ⟨L, R, hpics, hput⟩ := SiteTable.exists_pics_put h.sites m bci
    (e.fresh_freshSite method s).dest
  rw [hc] at hpics
  simp only [sendInterpreted, hmethod, hs, hc] at hcode ⊢
  have htrades := e.trades_dispatch c r
  have hd := e.dispatched c r e.settings.caches.maxEntries.toNat
  generalize e.dispatch c r e.settings.caches.maxEntries.toNat = d at hcode htrades hd ⊢
  obtain ⟨e₁, t, c'⟩ := d
  obtain ⟨⟨space, rfl⟩, -⟩ := hd
  obtain ⟨tally, hstate⟩ := afterSend_state
    { e with pics := space, memo := e.memoAfter c r, sites := e.sites.put m bci c' } t
  refine ⟨⟨hcode, ?_⟩, ?_⟩
  · rw [hstate]
    exact h.sites.put m bci c'
  · rw [hstate, heldPics, heldPics, hpics, hput]
    exact ((htrades.frame_left L).frame R).frame e.code.pics

/-- A send through the cache of a call site, which stays in its code. -/
theorem books_compiled (h : e.InOrder) {n : NativeId} {site : Nat}
    (hc : e.cacheAt? (.compiled n site) = some c) (r : ClassId) :
    e.Books (e.dispatchBookings c r) (e.sendCompiled n site r).state := by
  have hcode := (served_compiled hc r).advances.code h.code
  obtain ⟨native, hn, hc⟩ := Option.bind_eq_some_iff.1 hc
  obtain ⟨s, hs, hc⟩ := Option.bind_eq_some_iff.1 hc
  obtain rfl : s.cache = c := Option.some.inj hc
  have hnative : e.code.get n = .ok native := by rw [CodeTable.get, hn]
  -- The cache is one place in the list of all pics, and the rest is a frame.
  obtain ⟨L, R, hpics, hset⟩ := CodeTable.exists_pics_set hn hs
  simp only [sendCompiled, hnative, hs] at hcode ⊢
  have htrades := e.trades_dispatch s.cache r
  have hd := e.dispatched s.cache r e.settings.caches.maxEntries.toNat
  generalize e.dispatch s.cache r e.settings.caches.maxEntries.toNat = d at hcode htrades hd ⊢
  obtain ⟨e₁, t, c'⟩ := d
  obtain ⟨⟨space, rfl⟩, -⟩ := hd
  obtain ⟨tally, hstate⟩ := afterSend_state
    { e with
      pics := space, memo := e.memoAfter s.cache r
      code := e.code.modify n fun m =>
        { m with sites := m.sites.set site { s with cache := c' } } } t
  refine ⟨⟨hcode, ?_⟩, ?_⟩
  · rw [hstate]
    exact h.sites
  · rw [hstate, heldPics, heldPics, hpics, hset]
    exact ((htrades.frame_left L).frame R).frame_left e.sites.pics

/-- A send books what its dispatch books, wherever its cache is. -/
theorem books_send (h : e.InOrder) (p : SendPlace) (r : ClassId) :
    e.Books (e.picBookings (.send p r)) (e.send p r).state := by
  rw [picBookings]
  rcases hc : e.cacheAt? p with _ | c
  · obtain ⟨f, hf⟩ := send_of_cacheAt?_eq_none hc r
    rw [hf]
    exact .refl h
  · cases p with
    | interpreted m bci => exact books_interpreted h hc r
    | compiled n site => exact books_compiled h hc r

/-! ### Cleanups and new methods -/

/-- A cleanup books what all caches give back. -/
theorem books_cleanup (h : e.InOrder) : e.Books e.cleanupBookings e.cleanup.2 where
  inOrder := ⟨e.advances_cleanup.code h.code, h.sites.cleanup e.isCurrent e.pics⟩
  trades := (e.sites.trades_cleanup e.isCurrent e.pics).append
    (trades_cleanupNatives e.isCurrent e.code.methods _)

/-- Retracting a method books what its caches give back, if it was superseded. -/
theorem books_retract (h : e.InOrder) (old : MethodId) :
    e.Books (e.retractBookings old) (e.retract old) := by
  have hcode : (e.retract old).code.WellFormed := by
    rw [code_retract]
    exact h.code.invalidateDependents old
  have hpics : (e.retract old).code.pics = e.code.pics := by
    rw [code_retract, CodeTable.pics_invalidateDependents]
  by_cases hold : (e.classes.method? old).any (·.superseded)
  · have hsites : (e.retract old).sites = (e.sites.removeMethod old e.pics).1 := by
      rw [retract, if_pos hold]
    have hspace : (e.retract old).pics = (e.sites.removeMethod old e.pics).2 := by
      rw [retract, if_pos hold]
    refine ⟨⟨hcode, ?_⟩, ?_⟩
    · rw [hsites]
      exact h.sites.removeMethod old e.pics
    · rw [heldPics, heldPics, hpics, hsites, hspace, retractBookings, if_pos hold]
      exact (e.sites.trades_removeMethod old e.pics).frame e.code.pics
  · have hsites : (e.retract old).sites = e.sites := by rw [retract, if_neg hold]
    have hspace : (e.retract old).pics = e.pics := by rw [retract, if_neg hold]
    rw [retractBookings, if_neg hold]
    refine .of_eq ⟨hcode, ?_⟩ hspace ?_
    · rw [hsites]
      exact h.sites
    · rw [heldPics, heldPics, hpics, hsites]

theorem books_replace (h : e.InOrder) (c : ClassId) (d : Draft) :
    e.Books (e.replaceBookings c d) (e.orElse (e.replaceMethod c d)) := by
  rw [replaceBookings, replaceMethod]
  rcases hadd : e.classes.addMethod c d with f | ⟨classes, m⟩
  · exact .refl h
  · -- The definition itself concerns no cache.
    have hdefine : e.Books [] { e with classes := classes, memo := e.memo.flush } :=
      .of_eq ⟨h.code, h.sites⟩ rfl rfl
    rcases e.classes.lookup c d.selector with _ | old
    · exact hdefine.trans (books_cleanup hdefine.inOrder)
    · have hretract := books_retract hdefine.inOrder old
      exact hdefine.trans (hretract.trans (books_cleanup hretract.inOrder))

/-! ### Other events -/

/-- Chores book nothing. -/
theorem Chore.books {inTrap : Bool} (hchore : e.Chore inTrap e') (h : e.InOrder) :
    e.Books [] e' := by
  cases hchore with
  | aside => exact .of_eq ⟨h.code, h.sites⟩ rfl rfl
  | link hm hs =>
    refine .of_eq ⟨h.code, h.sites.ensure _ _ _⟩ rfl ?_
    rw [heldPics, heldPics, SiteTable.pics_ensure h.sites _ _ (e.fresh_freshSite _ _).dest]
  | install hprepare hinstall =>
    refine .of_eq ⟨h.code.install hinstall, h.sites⟩ rfl ?_
    rw [heldPics, heldPics, CodeTable.pics_install hinstall
      ((fresh_prepare hprepare).mono fun _ hc => hc.dest)]
  | count i ticks =>
    refine .of_eq ⟨h.code.modify fun n _ => ⟨⟨rfl, fun h => h⟩, rfl⟩, h.sites⟩ rfl ?_
    rw [heldPics, heldPics, CodeTable.pics_modify]
    exact fun n _ => rfl
  | patch _ hn trap count =>
    refine .of_eq ⟨(Steady.patch hn trap count).code h.code, h.sites⟩ rfl ?_
    rw [heldPics, heldPics, CodeTable.pics_modify]
    intro n' hn'
    cases hn.symm.trans hn'
    rfl
  | invalidate _ i =>
    refine .of_eq ⟨h.code.invalidate i, h.sites⟩ rfl ?_
    rw [heldPics, heldPics, CodeTable.pics_invalidate]

theorem Upkeep.books {inTrap : Bool} (hupkeep : e.Upkeep inTrap e') (h : e.InOrder) :
    e.Books [] e' :=
  hupkeep.induction (P := e.Books [])
    (fun _ _ hchore hbooks => hbooks.trans (hchore.books hbooks.inOrder)) (.refl h)

/-- Every event books with the space what its caches give back and ask for. -/
theorem books_step (h : e.InOrder) (ev : Event) : e.Books (e.picBookings ev) (e.step ev) := by
  have hsteady (hev : ev.isSteady) : e.Books [] (e.step ev) := by
    rcases e.upkeep_step hev with hupkeep | ⟨t, -, -, -, hstep⟩
    · exact hupkeep.books h
    · rw [hstep]
      exact .of_eq ⟨h.code, h.sites⟩ rfl rfl
  cases ev with
  | send p r => exact books_send h p r
  | replace c d => exact books_replace h c d
  | cleanup => exact books_cleanup h
  | trap p i trap => exact (upkeep_uncommonTrap h.code p i trap : e.Upkeep true _).books h
  | _ => exact hsteady rfl

/-! ## Runs -/

/-- The engines that a fresh machine with some settings can become: by events, and by whatever
    definitions are made in between. -/
inductive Attained (s : Settings) : Engine → Prop
  | start (t : ClassTable) : Attained s (startWith s t)
  | step {e : Engine} (h : Attained s e) (ev : Event) : Attained s (e.step ev)
  | define {e : Engine} (h : Attained s e) (t : ClassTable) : Attained s { e with classes := t }

theorem Attained.run (h : Attained s e) (events : List Event) : Attained s (e.run events) := by
  induction events generalizing e with
  | nil => exact h
  | cons ev events ih => exact ih (h.step ev)

/-- The space accounts for all pics that caches hold. -/
structure Balanced (e : Engine) : Prop extends InOrder e where
  accounts : e.pics.Accounts e.heldPics

theorem Balanced.start (s : Settings) (t : ClassTable) : (startWith s t).Balanced where
  code := .empty
  sites := List.Pairwise.nil
  accounts := ⟨rfl, Nat.zero_le _, rfl⟩

/-- A booked change keeps the accounts. -/
theorem Books.accounts (h : e.Books ops e') (ha : e.pics.Accounts e.heldPics) :
    e'.pics.Accounts e'.heldPics := by
  have haccounts := h.trades.accounts []
  rw [List.append_nil, List.append_nil] at haccounts
  exact haccounts ha

/-- While the accounts are right, every booking is exact. -/
theorem Books.exact (h : e.Books ops e') (ha : e.pics.Accounts e.heldPics) : e.pics.Exact ops :=
  h.trades.exact [] ((List.append_nil _).symm ▸ ha)

/-- The accounts are right at every moment of a run. -/
theorem Attained.balanced (h : Attained s e) : e.Balanced := by
  induction h with
  | start t => exact .start s t
  | step _ ev ih =>
    have hbooks := books_step ih.toInOrder ev
    exact ⟨hbooks.inOrder, hbooks.accounts ih.accounts⟩
  | define _ t ih => exact ⟨⟨ih.code, ih.sites⟩, ih.accounts⟩

/-- No event changes the capacity. -/
theorem Attained.capacity (h : Attained s e) : e.pics.capacity = s.caches.picCapacity.toNat := by
  induction h with
  | start t => rfl
  | step h ev ih => rw [(books_step h.balanced.toInOrder ev).trades.result, capacity_performAll, ih]
  | define _ t ih => exact ih

/-- At every moment of a run the space in use is what the pics of all caches take, no more than
    the settings allow, and there are as many of them as were allocated and not given back. An
    event changes the space only by its bookings, and gives back only what is in use. -/
theorem balanced_of_attained (h : Attained s e) :
    e.pics.used = Pic.total e.heldPics ∧ e.pics.used ≤ e.pics.capacity ∧
      e.pics.capacity = s.caches.picCapacity.toNat ∧
        e.pics.allocations = e.pics.frees + e.heldPics.length ∧
      ∀ ev, (e.step ev).pics = e.pics.performAll (e.picBookings ev) ∧
        e.pics.Exact (e.picBookings ev) := by
  have hb := h.balanced
  refine ⟨hb.accounts.used, hb.accounts.fits, h.capacity, hb.accounts.live, fun ev => ?_⟩
  have hbooks := books_step hb.toInOrder ev
  exact ⟨hbooks.trades.result, hbooks.exact hb.accounts⟩

/-- Little room for pics. -/
def crampedSettings : Settings := { caches := { maxEntries := 2, picCapacity := 3 } }

/-- A send goes megamorphic, its method is compiled, and the call site gets two classes. One of
    them then gets a method of its own, and at last the sender itself is replaced. -/
def abandonedCallSite : List Event := [
  .replace ⟨0⟩ { selector := ⟨0⟩, steps := [.work 1] },
  .replace ⟨0⟩ { selector := ⟨1⟩, argCount := 1, steps := [.send ⟨0⟩ (.arg 0) []] },
  .send (.interpreted ⟨1⟩ 0) ⟨0⟩, .send (.interpreted ⟨1⟩ 0) ⟨2⟩, .send (.interpreted ⟨1⟩ 0) ⟨3⟩,
  .compile (.send ⟨0⟩ ⟨1⟩), .send (.compiled ⟨0⟩ 0) ⟨0⟩, .send (.compiled ⟨0⟩ 0) ⟨2⟩,
  .replace ⟨2⟩ { selector := ⟨0⟩, steps := [.work 2] },
  .replace ⟨0⟩ { selector := ⟨1⟩, argCount := 1, steps := [.send ⟨0⟩ (.arg 0) []] }]

/-- The only pic that is left is one of invalid code. Its next send gives it back for a larger
    one. -/
theorem balanced_abandonedCallSite : ∃ e, Attained crampedSettings e ∧
    e = (startWith crampedSettings .initial).run abandonedCallSite ∧
      (e.code.get? ⟨0⟩).map (·.state) = some .invalid ∧
    e.heldPics = [.entries [⟨⟨0⟩, .interpreted ⟨0⟩⟩]] ∧
    e.picBookings (.send (.compiled ⟨0⟩ 0) ⟨3⟩) =
      [.free (.entries [⟨⟨0⟩, .interpreted ⟨0⟩⟩]),
        .allocate (.entries [⟨⟨0⟩, .interpreted ⟨0⟩⟩, ⟨⟨3⟩, .interpreted ⟨0⟩⟩])] ∧
    e.pics.used = Pic.total e.heldPics ∧ e.pics.used ≤ e.pics.capacity ∧
    e.pics.capacity = crampedSettings.caches.picCapacity.toNat ∧
    e.pics.allocations = e.pics.frees + e.heldPics.length ∧
    ∀ ev, (e.step ev).pics = e.pics.performAll (e.picBookings ev) ∧
      e.pics.Exact (e.picBookings ev) := by
  obtain ⟨e, he⟩ : ∃ e, e = (startWith crampedSettings .initial).run abandonedCallSite := ⟨_, rfl⟩
  have hattained : Attained crampedSettings e :=
    he ▸ (Attained.start .initial).run abandonedCallSite
  refine ⟨e, hattained, he, ?_, ?_, ?_, balanced_of_attained hattained⟩
  · rw [he]
    decide +kernel
  · rw [he]
    decide +kernel
  · rw [he]
    decide +kernel

end Engine

end Warmup
