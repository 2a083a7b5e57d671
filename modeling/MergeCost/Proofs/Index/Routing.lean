import MergeCost.Index.Merging
import MergeCost.Proofs.Cold.Drain

/-!
Where entries go. A routing is all that decides how the requests to an index are split and which
cold entries they meet. It follows the requests by itself: neither the way in which touches are
charged, nor the device, nor the nodes of the wrapped index have a part in it.
-/

namespace MergeCost

namespace PartitionStore

/-- A store without what only tells how it is charged. -/
def bare (store : PartitionStore) : PartitionStore :=
  { store with recordSize := 0, entriesPerPartition := 0, invalidation := .blockRewrite }

variable (store : PartitionStore)

theorem nextGiver_bare (listing : Listing) (turns cursor : Nat) :
    listing.nextGiver store.bare turns cursor = listing.nextGiver store turns cursor := by
  induction turns generalizing cursor with
  | zero => rfl
  | succ turns ih =>
      have partitions : store.bare.partitions = store.partitions := rfl
      simp only [Listing.nextGiver, partitions, ih]

theorem run_bare (entries : Nat) (listing : Listing) :
    Listing.run store.bare entries listing = Listing.run store entries listing := by
  induction entries generalizing listing with
  | zero => rfl
  | succ entries ih =>
      have giver := store.nextGiver_bare listing store.partitions.size listing.cursor
      simp only [Listing.run, ih]
      rw [← giver]
      rfl

theorem walk_bare (visits : Nat) (walk : Walk) :
    Walk.run store.bare visits walk = Walk.run store visits walk := by
  induction visits generalizing walk with
  | zero => rfl
  | succ visits ih =>
      have step : walk.step store.bare = walk.step store := rfl
      simp only [Walk.run, step]
      cases walk.step store with
      | error fault => rfl
      | ok next =>
          by_cases done : walk.wanted = 0
          · simp only [if_pos done]
          · simp only [if_neg done]
            exact ih next

theorem locatePoint_bare (entries : Nat) :
    store.bare.locatePoint entries =
      (store.locatePoint entries).map fun found => (found.1, found.2.bare) := by
  have same : Listing.run store.bare entries store.bare.unlisted =
      Listing.run store entries store.unlisted := store.run_bare entries store.unlisted
  rw [locatePoint, same, locatePoint]
  cases Listing.run store entries store.unlisted <;> rfl

theorem locateRange_bare (entries : Nat) :
    store.bare.locateRange entries =
      (store.locateRange entries).map fun found => (found.1, found.2.bare) := by
  let start : Walk := ⟨store.rangeCursor, entries, []⟩
  have same := store.walk_bare store.partitions.size start
  cases walked : Walk.run store store.partitions.size start <;>
    · rw [walked] at same
      simp only [start] at walked same
      simp only [locateRange, bare] at same ⊢
      simp only [same, walked]
      rfl

/-- What a request locates does not depend on how the store is charged. -/
theorem locate_bare (lookup : Lookup) (entries : Nat) :
    store.bare.locate lookup entries =
      (store.locate lookup entries).map fun found => (found.1, found.2.bare) := by
  have count : store.bare.entries = store.entries := rfl
  by_cases nothing : min entries store.entries = 0
  · simp only [locate, count, nothing, if_true]
    rfl
  · simp only [locate, count, if_neg nothing]
    cases lookup with
    | point => exact store.locatePoint_bare _
    | range => exact store.locateRange_bare _

theorem bare_drainAll (located : List Located) :
    (store.drainAll located).bare = store.bare.drainAll located := by
  induction located generalizing store with
  | nil => rfl
  | cons part rest ih => exact ih (store.drain part)

end PartitionStore

/-- What decides where the entries of requests are taken from, and what has been counted of it. -/
structure Routing (τ : Type) where
  partitions : Array Partition
  pointCursor : Nat
  rangeCursor : Nat
  carry : τ
  hot : Nat
  requests : Request → Nat
  loadings : Nat

namespace Routing

variable {τ : Type}

def base (routing : Routing τ) : PartitionStore :=
  ⟨0, 0, routing.partitions, .blockRewrite, routing.pointCursor, routing.rangeCursor⟩

def cold (routing : Routing τ) : Nat := routing.base.entries

def entries (routing : Routing τ) : Nat := routing.cold + routing.hot

def count (request : Request) (routing : Routing τ) : Routing τ :=
  { routing with
    requests := fun other => routing.requests other + if request = other then 1 else 0 }

def touch (routing : Routing τ) (lookup : Lookup) (entries : Nat) :
    Except Fault (Nat × Routing τ) :=
  (routing.base.locate lookup entries).map fun (located, base) =>
    let drained := base.drainAll located
    (routing.cold - drained.entries, { routing with
      partitions := drained.partitions
      pointCursor := drained.pointCursor
      rangeCursor := drained.rangeCursor
      loadings := routing.loadings + if located.isEmpty then 0 else 1 })

variable [Scalar τ]

def insert (routing : Routing τ) (entries : Nat) : Routing τ :=
  if entries = 0 then routing else { routing with hot := routing.hot + entries }.count .insert

/-- The cold part of a find becomes hot. -/
def find (routing : Routing τ) (lookup : Lookup) (entries repeats : Nat) :
    Except Fault (Routing τ) :=
  let entries := min entries routing.entries
  if entries = 0 ∨ repeats = 0 then .ok routing
  else do
    let parts ← Split.of entries routing.cold routing.hot routing.carry
    let (moved, after) ← { routing with carry := parts.carry }.touch lookup parts.cold
    return { after with hot := after.hot + moved }.count lookup.request

theorem find_of_split {routing left : Routing τ} {lookup : Lookup} {entries repeats moved : Nat}
    {parts : Split τ} (something : ¬(min entries routing.entries = 0 ∨ repeats = 0))
    (parted : Split.of (min entries routing.entries) routing.cold routing.hot routing.carry =
      .ok parts)
    (touched : { routing with carry := parts.carry }.touch lookup parts.cold =
      .ok (moved, left)) :
    routing.find lookup entries repeats =
      .ok ({ left with hot := left.hot + moved }.count lookup.request) := by
  simp only [find, if_neg something, parted, bind, Except.bind, touched]
  rfl

/-- What leaves the cold side for a delete is deleted at once. -/
def delete (routing : Routing τ) (entries : Nat) : Except Fault (Routing τ) :=
  let entries := min entries routing.entries
  if entries = 0 then .ok routing
  else do
    let parts ← Split.of entries routing.cold routing.hot routing.carry
    let fewer := { routing with carry := parts.carry, hot := routing.hot - parts.hot }
    let (_, after) ← fewer.touch .point parts.cold
    return after.count .delete

theorem delete_of_split {routing left : Routing τ} {entries moved : Nat} {parts : Split τ}
    (something : ¬min entries routing.entries = 0)
    (parted : Split.of (min entries routing.entries) routing.cold routing.hot routing.carry =
      .ok parts)
    (touched : { routing with
      carry := parts.carry
      hot := routing.hot - parts.hot }.touch .point parts.cold = .ok (moved, left)) :
    routing.delete entries = .ok (left.count .delete) := by
  simp only [delete, if_neg something, parted, bind, Except.bind, touched]
  rfl

end Routing

end MergeCost
