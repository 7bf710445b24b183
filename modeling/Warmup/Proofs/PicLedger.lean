import Mathlib.Data.List.Perm.Basic
import Warmup.Proofs.CacheStates

/-!
# The ledger of the space for pics

The space for pics is a counter: it knows no pic, only how much is in use. That this is right is
a matter of the caches, which must give back each pic once, before they forget it.

* `PicSpace.Accounts`: what the space says is what the pics in a list take;
* `PicSpace.Booking`: what a cache asks of the space, one after the other. For each change of
  a cache there is the list of its bookings (`InlineCache.missBookings` and others);
* `PicSpace.Exact`: no pic is given back that is larger than what is in use, so nothing is lost
  by a subtraction that stops at zero;
* `PicSpace.Trades`: a change of caches and space that has these bookings, is exact, and keeps
  the accounts, whatever other caches hold.
-/

namespace Warmup

/-- The space that some pics take. -/
def Pic.total (ps : List Pic) : Nat := (ps.map Pic.footprint).foldr (· + ·) 0

theorem Pic.total_cons (p : Pic) (ps : List Pic) : total (p :: ps) = p.footprint + total ps := rfl

/-- What pics take does not depend on their order. -/
theorem Pic.total_perm {ps ps' : List Pic} (h : ps.Perm ps') : total ps = total ps' := by
  induction h with
  | nil => rfl
  | cons p _ ih => rw [total_cons, total_cons, ih]
  | swap p p' ps => simp only [total_cons, Nat.add_left_comm]
  | trans _ _ ih ih' => exact ih.trans ih'

namespace PicSpace

variable {s s' s'' : PicSpace} {A A' B B' C : List Pic} {p p' : Pic}

/-- What is asked of the space. -/
inductive Booking
  | allocate (p : Pic)
  | free (p : Pic)
  deriving DecidableEq

variable {ops ops' : List Booking}

/-- The space after it was asked. -/
def perform (s : PicSpace) : Booking → PicSpace
  | .allocate p => (s.allocate p).2
  | .free p => s.free p

/-- The space after some bookings. -/
def performAll (s : PicSpace) (ops : List Booking) : PicSpace := ops.foldl perform s

/-- Every pic that is given back is part of what is in use then. -/
def Exact : PicSpace → List Booking → Prop
  | _, [] => True
  | s, .allocate p :: ops => (s.allocate p).2.Exact ops
  | s, .free p :: ops => p.footprint ≤ s.used ∧ (s.free p).Exact ops

theorem performAll_append (s : PicSpace) (ops ops' : List Booking) :
    s.performAll (ops ++ ops') = (s.performAll ops).performAll ops' := List.foldl_append

theorem capacity_performAll (s : PicSpace) (ops : List Booking) :
    (s.performAll ops).capacity = s.capacity := by
  induction ops generalizing s with
  | nil => rfl
  | cons op ops ih =>
    refine (ih (s.perform op)).trans ?_
    cases op with
    | allocate p =>
      rw [perform, PicSpace.allocate]
      split
      · rfl
      · rfl
    | free p => rfl

/-- Exact bookings, one list after the other, are exact. -/
theorem Exact.append (h : s.Exact ops) (h' : (s.performAll ops).Exact ops') :
    s.Exact (ops ++ ops') := by
  induction ops generalizing s with
  | nil => exact h'
  | cons op ops ih =>
    cases op with
    | allocate p => exact ih h h'
    | free p => exact ⟨h.1, ih h.2 h'⟩

/-- The space accounts for the pics in `held`. -/
structure Accounts (s : PicSpace) (held : List Pic) : Prop where
  used : s.used = Pic.total held
  fits : s.used ≤ s.capacity
  live : s.allocations = s.frees + held.length

theorem Accounts.perm (h : s.Accounts A) (hp : A.Perm A') : s.Accounts A' where
  used := h.used.trans (Pic.total_perm hp)
  fits := h.fits
  live := by rw [h.live, hp.length_eq]

/-- A pic that the space accounts for is no larger than what is in use. -/
theorem Accounts.footprint_le (h : s.Accounts (p :: A)) : p.footprint ≤ s.used := by
  rw [h.used, Pic.total_cons]
  exact Nat.le_add_right _ _

/-- Giving back a pic that the space accounts for keeps the accounts. -/
theorem Accounts.free (h : s.Accounts (p :: A)) : (s.free p).Accounts A where
  used := by
    show s.used - p.footprint = _
    rw [h.used, Pic.total_cons, Nat.add_sub_cancel_left]
  fits := Nat.le_trans (Nat.sub_le _ _) h.fits
  live := by
    show s.allocations = s.frees + 1 + A.length
    rw [h.live, List.length_cons]
    omega

/-- Asking for a pic keeps the accounts, whether there is room or not. -/
theorem Accounts.allocate (h : s.Accounts A) (p : Pic) :
    (s.allocate p).2.Accounts ((if (s.allocate p).1 then [p] else []) ++ A) := by
  rw [PicSpace.allocate]
  split
  · next hadmits =>
    have hroom : s.used + p.footprint ≤ s.capacity := by
      simpa using (Bool.and_eq_true_iff.1 hadmits).2
    refine ⟨?_, hroom, ?_⟩
    · show s.used + p.footprint = _
      rw [h.used, Nat.add_comm]
      rfl
    · show s.allocations + 1 = s.frees + (A.length + 1)
      rw [h.live, Nat.add_assoc]
  · exact ⟨h.used, h.fits, h.live⟩

/-- The bookings `ops` take the space from `s` to `s'`. If `s` accounts for the pics in `A`, and
    for whatever else there is, they are exact, and `s'` accounts for those in `B` in their
    place. -/
structure Trades (s : PicSpace) (ops : List Booking) (s' : PicSpace) (A B : List Pic) : Prop where
  result : s' = s.performAll ops
  exact : ∀ rest, s.Accounts (A ++ rest) → s.Exact ops
  accounts : ∀ rest, s.Accounts (A ++ rest) → s'.Accounts (B ++ rest)

namespace Trades

theorem refl (s : PicSpace) (A : List Pic) : s.Trades [] s A A :=
  ⟨rfl, fun _ _ => trivial, fun _ h => h⟩

/-- A pic may take the place of another one of its size. -/
theorem of_footprint (s : PicSpace) (h : p'.footprint = p.footprint) : s.Trades [] s [p] [p'] where
  result := rfl
  exact _ _ := trivial
  accounts rest ha := by
    refine ⟨?_, ha.fits, ha.live⟩
    rw [ha.used, List.singleton_append, List.singleton_append, Pic.total_cons, Pic.total_cons, h]

theorem free (s : PicSpace) (p : Pic) : s.Trades [.free p] (s.free p) [p] [] where
  result := rfl
  exact _ ha := ⟨ha.footprint_le, trivial⟩
  accounts _ ha := ha.free

theorem allocate (s : PicSpace) (p : Pic) :
    s.Trades [.allocate p] (s.allocate p).2 [] (if (s.allocate p).1 then [p] else []) where
  result := rfl
  exact _ _ := trivial
  accounts _ ha := ha.allocate p

theorem trans (h : s.Trades ops s' A B) (h' : s'.Trades ops' s'' B C) :
    s.Trades (ops ++ ops') s'' A C where
  result := by rw [h'.result, h.result, performAll_append]
  exact rest ha := (h.exact rest ha).append (h.result ▸ h'.exact rest (h.accounts rest ha))
  accounts rest ha := h'.accounts rest (h.accounts rest ha)

theorem perm (h : s.Trades ops s' A B) (hA : A'.Perm A) (hB : B.Perm B') :
    s.Trades ops s' A' B' where
  result := h.result
  exact rest ha := h.exact rest (ha.perm (hA.append_right rest))
  accounts rest ha := (h.accounts rest (ha.perm (hA.append_right rest))).perm (hB.append_right rest)

/-- What is held besides does not matter. -/
theorem frame (h : s.Trades ops s' A B) (C : List Pic) : s.Trades ops s' (A ++ C) (B ++ C) where
  result := h.result
  exact rest ha := h.exact (C ++ rest) (List.append_assoc A C rest ▸ ha)
  accounts rest ha :=
    List.append_assoc B C rest ▸ h.accounts (C ++ rest) (List.append_assoc A C rest ▸ ha)

/-- What other caches hold is no part of a trade. -/
theorem frame_left (h : s.Trades ops s' A B) (C : List Pic) : s.Trades ops s' (C ++ A) (C ++ B) :=
  (h.frame C).perm List.perm_append_comm List.perm_append_comm

/-- Two trades one after the other. -/
theorem append (h : s.Trades ops s' A B) (h' : s'.Trades ops' s'' A' B') :
    s.Trades (ops ++ ops') s'' (A ++ A') (B ++ B') := (h.frame A').trans (h'.frame_left B)

end Trades

end PicSpace

/-! ## Caches -/

namespace InlineCache

open PicSpace

variable {c : InlineCache} {r : ClassId} {isCurrent : LookupKey → Target → Bool}

/-- The pic that a cache holds, if it holds one. -/
def pics (c : InlineCache) : List Pic :=
  match c.dest with
  | .pic p => [p]
  | _ => []

/-- What a cache books when it gives up its destination. -/
def releaseBookings (c : InlineCache) : List Booking := c.pics.map .free

/-- What a cache books when it gets a pic. -/
def installBookings (c : InlineCache) (p : Pic) : List Booking := c.releaseBookings ++ [.allocate p]

/-- What a miss books. -/
def missBookings (c : InlineCache) (r : ClassId) (answer : Option Target) (maxEntries : Nat) :
    List Booking :=
  answer.elim [] fun t =>
    if c.isMegamorphic then []
    else if c.dest = .stub then if t.isCompiled then [] else c.installBookings (.entries [⟨r, t⟩])
    else if c.entries.length < maxEntries then c.installBookings (.entries (c.entries ++ [⟨r, t⟩]))
    else c.installBookings (.megamorphic (some r))

/-- What a cleanup books. -/
def cleanupBookings (c : InlineCache) (isCurrent : LookupKey → Target → Bool) : List Booking :=
  let live := c.entries.filter fun e => isCurrent (c.lookupKey e.cls) e.target
  if live.length = c.entries.length then []
  else if live.length ≤ 1 ∧ live.all (·.target.isCompiled) then c.releaseBookings
  else c.installBookings (.entries live)

/-- A cache that gives up its pic trades it for nothing. -/
theorem trades_release (c : InlineCache) (space : PicSpace) :
    space.Trades c.releaseBookings (c.release space).2 c.pics [] := by
  rcases c with ⟨s, start, flags, _ | e | p, hits, misses⟩
  · exact .refl space []
  · exact .refl space []
  · exact .free space p

/-- A cache holds the new pic exactly if there was room for it. -/
theorem pics_install (c : InlineCache) (p : Pic) (space : PicSpace) :
    (c.install p space).2.1.pics = if ((c.release space).2.allocate p).1 then [p] else [] := by
  rcases h : (c.release space).2.allocate p with ⟨_ | _, rest⟩
  · simp only [install, h]
    rfl
  · simp only [install, h]
    rfl

theorem space_install (c : InlineCache) (p : Pic) (space : PicSpace) :
    (c.install p space).2.2 = ((c.release space).2.allocate p).2 := by
  rcases h : (c.release space).2.allocate p with ⟨_ | _, rest⟩
  · simp only [install, h]
  · simp only [install, h]

/-- A cache gives back the pic that it has before it asks for another one. -/
theorem trades_install (c : InlineCache) (p : Pic) (space : PicSpace) :
    space.Trades (c.installBookings p) (c.install p space).2.2 c.pics
      (c.install p space).2.1.pics := by
  rw [pics_install, space_install]
  exact (c.trades_release space).trans (.allocate _ p)

/-- A cache that grows gives back its pic and asks for the larger one. -/
theorem trades_grow (c : InlineCache) (p : Pic) (space : PicSpace) (change : Target → Transition)
    (t : Target) :
    space.Trades (c.installBookings p) (c.grow p space change t).space c.pics
      (c.grow p space change t).cache.pics := by
  have htrades := c.trades_install p space
  rcases h : c.install p space with ⟨_ | _, c', rest⟩
  · rw [h] at htrades
    rw [grow, h]
    exact htrades
  · rw [h] at htrades
    rw [grow, h]
    exact htrades

/-- A cache that gave up holds one megamorphic pic. -/
theorem pics_of_megamorphic (hm : c.isMegamorphic) : ∃ last, c.pics = [.megamorphic last] := by
  rcases c with ⟨s, start, flags, _ | e | es | last, hits, misses⟩
  · cases hm
  · cases hm
  · cases hm
  · exact ⟨last, rfl⟩

/-- A miss books what it gives back and asks for. -/
theorem trades_miss (c : InlineCache) (r : ClassId) (answer : Option Target) (space : PicSpace)
    (n : Nat) :
    space.Trades (c.missBookings r answer n) (c.miss r answer space n).space c.pics
      (c.miss r answer space n).cache.pics := by
  rcases answer with _ | t
  · exact .refl space c.pics
  · rw [missBookings, Option.elim_some]
    split
    · next hm =>
      -- The pic stays, with another last class.
      obtain ⟨last, hlast⟩ := pics_of_megamorphic hm
      rw [miss_of_megamorphic hm, hlast]
      exact .of_footprint space rfl
    · next hm =>
      split
      · next hd =>
        have hpics : c.pics = [] := by rw [pics, hd]
        rw [miss_of_stub hd]
        split
        · rw [hpics]
          exact .refl space []
        · exact c.missed.trades_grow _ space _ t
      · next hd =>
        split
        · next hn =>
          rw [miss_of_room hd hm hn]
          exact c.missed.trades_grow _ space _ t
        · next hn =>
          have htrades := c.missed.trades_install (.megamorphic (some r)) space
          rcases h : c.missed.install (.megamorphic (some r)) space with ⟨done, c', rest⟩
          rw [h] at htrades
          rw [miss_of_full hd hm (Nat.le_of_not_lt hn) r t space h]
          cases done with
          | false => exact htrades
          | true => exact htrades

/-- Dropping entries books what is given back, and what the entries that are left ask for. -/
theorem trades_cleanup (c : InlineCache) (isCurrent : LookupKey → Target → Bool)
    (space : PicSpace) :
    space.Trades (c.cleanupBookings isCurrent) (c.cleanup isCurrent space).2.2 c.pics
      (c.cleanup isCurrent space).2.1.pics := by
  have hle := List.length_filter_le (fun e => isCurrent (c.lookupKey e.cls) e.target) c.entries
  rw [cleanup, cleanupBookings]
  simp only
  generalize c.entries.filter (fun e => isCurrent (c.lookupKey e.cls) e.target) = live at hle ⊢
  by_cases hlive : live.length = c.entries.length
  · have hremoved : c.entries.length - live.length = 0 := by omega
    rw [if_pos hlive, if_pos hremoved]
    exact .refl space c.pics
  · have hremoved : ¬c.entries.length - live.length = 0 := by omega
    rw [if_neg hlive, if_neg hremoved]
    -- None, one or more entries are left.
    rcases live with _ | ⟨e, _ | ⟨e', live⟩⟩
    · rw [if_pos (by simp)]
      exact c.trades_release space
    · simp only
      by_cases he : e.target.isCompiled
      · rw [if_pos he, if_pos (by simp [he])]
        exact c.trades_release space
      · rw [if_neg he, if_neg (by simp [he])]
        exact c.trades_install (.entries [e]) space
    · rw [if_neg (by simp)]
      exact c.trades_install (.entries (e :: e' :: live)) space

end InlineCache

/-! ## Tables of caches -/

namespace SiteTable

open PicSpace

variable {t : SiteTable} {m : MethodId} {bci : Bci} {c : InlineCache}
  {isCurrent : LookupKey → Target → Bool} {l : List InterpretedSite}

/-- The pics that some caches of the interpreter hold. -/
def picsOf (l : List InterpretedSite) : List Pic := l.flatMap fun s => s.cache.pics

/-- The pics that the caches of the interpreter hold. -/
def pics (t : SiteTable) : List Pic := picsOf t.sites

/-- What a cleanup of the caches books. -/
def cleanupBookings (t : SiteTable) (isCurrent : LookupKey → Target → Bool) : List Booking :=
  t.sites.flatMap fun s => s.cache.cleanupBookings isCurrent

/-- What is booked when the caches of a method are dropped. -/
def removeBookings (t : SiteTable) (m : MethodId) : List Booking :=
  (t.sites.filter (·.method = m)).flatMap fun s => s.cache.releaseBookings

/-- Cleaning the caches of the interpreter, one after the other. -/
theorem trades_cleanup (t : SiteTable) (isCurrent : LookupKey → Target → Bool) (space : PicSpace) :
    space.Trades (t.cleanupBookings isCurrent) (t.cleanup isCurrent space).2.2 t.pics
      (t.cleanup isCurrent space).2.1.pics := by
  suffices ∀ (l : List InterpretedSite) (space : PicSpace),
      space.Trades (l.flatMap fun s => s.cache.cleanupBookings isCurrent)
      (cleanupSites isCurrent l space).2.2
        (picsOf l) (picsOf (cleanupSites isCurrent l space).2.1) from
    this t.sites space
  intro l
  induction l with
  | nil => exact fun space => .refl space []
  | cons s l ih => exact fun space => (s.cache.trades_cleanup isCurrent space).append (ih _)

/-- The caches of a method that goes give back their pics. -/
theorem trades_removeMethod (t : SiteTable) (m : MethodId) (space : PicSpace) :
    space.Trades (t.removeBookings m) (t.removeMethod m space).2 t.pics
      (t.removeMethod m space).1.pics := by
  have hclear (l : List InterpretedSite) (space : PicSpace) :
      space.Trades (l.flatMap fun s => s.cache.releaseBookings)
      (l.foldl (fun space s => (s.cache.clear space).2) space)
        (picsOf l) [] := by
    induction l generalizing space with
    | nil => exact .refl space []
    | cons s l ih => exact (s.cache.trades_release space).append (ih _)
  -- The caches of the method and the others are all there are.
  have hparts : t.pics.Perm
      (picsOf (t.sites.filter (·.method = m)) ++ picsOf (t.sites.filter (·.method ≠ m))) := by
    rw [picsOf, picsOf, ← List.flatMap_append]
    refine List.Perm.flatMap_right _ ?_
    simpa using (List.filter_append_perm
      (fun s : InterpretedSite => decide (s.method = m)) t.sites).symm
  exact ((hclear _ space).frame _).perm hparts (.refl _)

end SiteTable

namespace NativeMethod

/-- The pics that the caches of code hold. -/
def pics (n : NativeMethod) : List Pic := n.sites.flatMap fun s => s.cache.pics

end NativeMethod

namespace Engine

open PicSpace

variable {isCurrent : LookupKey → Target → Bool}

/-- What a cleanup of the caches of code books; those of invalid code stay as they are. -/
def nativeBookings (isCurrent : LookupKey → Target → Bool) (l : List NativeMethod) : List Booking :=
  l.flatMap fun n => if n.isValid then n.sites.flatMap fun s =>
    s.cache.cleanupBookings isCurrent else []

/-- Cleaning the sites of one piece of code, one after the other. -/
theorem trades_cleanupCallSites (isCurrent : LookupKey → Target → Bool) (l : List CallSite)
    (space : PicSpace) :
    space.Trades (l.flatMap fun s => s.cache.cleanupBookings isCurrent)
      (cleanupCallSites isCurrent l space).2.2
      (l.flatMap fun s => s.cache.pics)
        ((cleanupCallSites isCurrent l space).2.1.flatMap fun s => s.cache.pics) := by
  induction l generalizing space with
  | nil => exact .refl space []
  | cons s l ih => exact (s.cache.trades_cleanup isCurrent space).append (ih _)

/-- Cleaning all code, one piece after the other. -/
theorem trades_cleanupNatives (isCurrent : LookupKey → Target → Bool) (l : List NativeMethod)
    (space : PicSpace) :
    space.Trades (nativeBookings isCurrent l) (cleanupNatives isCurrent l space).2.2
      (l.flatMap NativeMethod.pics)
        ((cleanupNatives isCurrent l space).2.1.flatMap NativeMethod.pics) := by
  induction l generalizing space with
  | nil => exact .refl space []
  | cons n l ih =>
    rw [nativeBookings, List.flatMap_cons, cleanupNatives]
    by_cases hvalid : n.isValid
    · rw [if_pos hvalid, if_pos hvalid]
      exact (trades_cleanupCallSites isCurrent n.sites space).append (ih _)
    · rw [if_neg hvalid, if_neg hvalid]
      exact (Trades.refl space n.pics).append (ih space)

end Engine

end Warmup
