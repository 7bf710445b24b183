import Warmup.InlineCache

/-!
# Sends of interpreted methods

The interpreter's sends have caches too. What they hold is all the feedback
there is for a method that was never compiled. A cache is made when its send is
first reached, and the sends are kept in the order of their methods and
positions.
-/

namespace Warmup

/-- The cache of a send of an interpreted method. -/
structure InterpretedSite where
  method : MethodId
  bci : Bci
  cache : InlineCache
  deriving DecidableEq

/-- The caches of interpreted sends. -/
structure SiteTable where
  sites : List InterpretedSite := []

namespace SiteTable

/-- The cache of the send at `bci` of a method. -/
def cache? (t : SiteTable) (m : MethodId) (bci : Bci) : Option InlineCache :=
  (t.sites.find? fun s => s.method = m ∧ s.bci = bci).map (·.cache)

/-- The caches of a method, by position. -/
def ofMethod (t : SiteTable) (m : MethodId) : List (Bci × InlineCache) :=
  (t.sites.filter (·.method = m)).map fun s => (s.bci, s.cache)

/-- Whether there are caches of a method. -/
def hasFeedback (t : SiteTable) (m : MethodId) : Bool := t.sites.any (·.method = m)

/-- Whether a send stands before another one. -/
def before (m : MethodId) (bci : Bci) (s : InterpretedSite) : Bool :=
  m.index < s.method.index || (m = s.method && bci < s.bci)

/-- The sends with a cache put in its place. -/
def insertSite (m : MethodId) (bci : Bci) (c : InlineCache) :
    List InterpretedSite → List InterpretedSite
  | [] => [⟨m, bci, c⟩]
  | s :: rest =>
    if s.method = m ∧ s.bci = bci then ⟨m, bci, c⟩ :: rest
    else if before m bci s then ⟨m, bci, c⟩ :: s :: rest
    else s :: insertSite m bci c rest

/-- The table with the cache of a send. -/
def put (t : SiteTable) (m : MethodId) (bci : Bci) (c : InlineCache) : SiteTable :=
  ⟨insertSite m bci c t.sites⟩

/-- The table with a cache for a send, the given one if it had none. -/
def ensure (t : SiteTable) (m : MethodId) (bci : Bci) (c : InlineCache) : SiteTable :=
  match t.cache? m bci with
  | some _ => t
  | none => t.put m bci c

/-- The number of entries dropped from some sends, the sends and the space
    without them. -/
def cleanupSites (isCurrent : LookupKey → Target → Bool) :
    List InterpretedSite → PicSpace → Nat × List InterpretedSite × PicSpace
  | [], space => (0, [], space)
  | s :: rest, space =>
    let (n, c, space) := s.cache.cleanup isCurrent space
    let (k, rest, space) := cleanupSites isCurrent rest space
    (n + k, { s with cache := c } :: rest, space)

/-- The number of entries dropped because they are not current, the table and
    the space without them. -/
def cleanup (t : SiteTable) (isCurrent : LookupKey → Target → Bool) (space : PicSpace) :
    Nat × SiteTable × PicSpace :=
  let (n, sites, space) := cleanupSites isCurrent t.sites space
  (n, ⟨sites⟩, space)

/-- The table without the caches of a method, and the space without their
    pics. -/
def removeMethod (t : SiteTable) (m : MethodId) (space : PicSpace) : SiteTable × PicSpace :=
  (⟨t.sites.filter (·.method ≠ m)⟩,
    (t.sites.filter (·.method = m)).foldl (fun space s => (s.cache.clear space).2) space)

/-- The methods that have caches, and what the caches hold. -/
def roots (t : SiteTable) : List Root :=
  ((t.sites.map (·.method)).eraseDups.map .method) ++ t.sites.flatMap fun s => s.cache.roots

end SiteTable

end Warmup
