import Mathlib.Data.List.MinMax
import Mathlib.Data.Prod.Lex
import Emitlane.Basic

/-!
# Ordering — the virtual-partition protocol of `internal/ordering`

FNV-1a 64-bit over the destination, a NUL byte and the key gives the partition of a stream; rendezvous hashing over
the active members gives the desired owner of a partition.

Nothing about the owner depends on the hash.  `ownerBy` is the loop of `DesiredOwner` with any scores, and
`ownerBy_eq_argmax` says what it computes: the member of the highest `rank`.  No two members have one rank, so the
owner is a function of the set of members.
-/

namespace Emitlane.Ordering

/-- `PartitionCount`. -/
def partitionCount : Nat := 64

def membershipHashVersion : String := "emitlane-owner-v1"

/-- `hash/fnv.New64a`. -/
def fnv64a (data : List UInt8) : UInt64 :=
  data.foldl (fun h b => (h ^^^ b.toUInt64) * 1099511628211) 14695981039346656037

/-- `Partition`: the stable partition of a destination-scoped key. -/
def partition (destination key : String) : Int :=
  (fnv64a (bytes destination ++ [0] ++ bytes key) % 64).toNat

/-- `ownerScore`; the partition is hashed as a big-endian `uint16`. -/
def ownerScore (partition : Int) (member : String) : UInt64 :=
  fnv64a (bytes membershipHashVersion ++ [0] ++
    [UInt8.ofNat (partition % 65536 / 256).toNat, UInt8.ofNat (partition % 256).toNat] ++ [0] ++ bytes member)

/-- One member of the `DesiredOwner` loop: the state is the winner so far and its score. -/
def considerMember (partition : Int) (best : String × UInt64) (member : String) : String × UInt64 :=
  let score := ownerScore partition member
  if best.1 = "" ∨ best.2 < score ∨ (score = best.2 ∧ member < best.1) then (member, score) else best

/-- `DesiredOwner`: no members, no desired owner (the empty string). -/
def desiredOwner (partition : Int) (members : List String) : String :=
  (members.foldl (considerMember partition) ("", 0)).1

/-! ## The owner with any scores -/

/-- The loop body of `DesiredOwner` with any scores. -/
def considerBy (score : String → UInt64) (best : String × UInt64) (member : String) : String × UInt64 :=
  if best.1 = "" ∨ best.2 < score member ∨ (score member = best.2 ∧ member < best.1) then (member, score member)
  else best

/-- `DesiredOwner` with any scores. -/
def ownerBy (score : String → UInt64) (members : List String) : String := (members.foldl (considerBy score) ("", 0)).1

theorem desiredOwner_eq (partition : Int) (members : List String) :
    desiredOwner partition members = ownerBy (ownerScore partition) members := rfl

section Owner

open OrderDual

/-- Members are preferred by their score, and by the smaller name among equal scores. -/
def rank (score : String → UInt64) (member : String) : ℕ ×ₗ Stringᵒᵈ :=
  toLex ((score member).toNat, toDual member)

variable {score : String → UInt64} {members : List String}

theorem rank_injective : Function.Injective (rank score) := by
  intro a b h
  have h : ((score a).toNat, toDual a) = ((score b).toNat, toDual b) := congrArg ofLex h
  exact toDual_inj.mp (Prod.mk.inj h).2

theorem rank_lt {a b : String} : rank score a < rank score b ↔
    score a < score b ∨ (score b = score a ∧ b < a) := by
  unfold rank
  rw [Prod.Lex.toLex_lt_toLex, UInt64.lt_iff_toNat_lt, toDual_lt_toDual]
  refine or_congr_right (and_congr_left fun _ => ?_)
  rw [UInt64.toNat_inj, eq_comm]

/-- The state of the loop: the empty name stands for no winner yet. -/
def loopState (score : String → UInt64) : Option String → String × UInt64
  | none => ("", 0)
  | some m => (m, score m)

theorem considerBy_loopState {o : Option String} (ho : ∀ m ∈ o, m ≠ "") (m : String) :
    considerBy score (loopState score o) m =
      loopState score (List.argAux (fun a b => rank score b < rank score a) o m) := by
  cases o with
  | none => simp [considerBy, loopState, List.argAux]
  | some b =>
    have hb : b ≠ "" := ho b rfl
    simp only [considerBy, loopState, List.argAux, rank_lt, hb, false_or]
    split_ifs <;> rfl

/-- No member is taken for the sentinel. -/
theorem argAux_ne_empty {o : Option String} (ho : ∀ m ∈ o, m ≠ "") {m : String} (hm : m ≠ "") :
    ∀ x ∈ List.argAux (fun a b => rank score b < rank score a) o m, x ≠ "" := by
  intro x hx
  cases o with
  | none =>
    obtain rfl : m = x := Option.some.inj hx
    exact hm
  | some b =>
    simp only [List.argAux] at hx
    split_ifs at hx
    · obtain rfl : m = x := Option.some.inj hx
      exact hm
    · exact ho x hx

theorem foldl_considerBy (hmembers : ∀ m ∈ members, m ≠ "") :
    ∀ {o : Option String}, (∀ m ∈ o, m ≠ "") → members.foldl (considerBy score) (loopState score o) =
      loopState score (members.foldl (List.argAux fun a b => rank score b < rank score a) o) := by
  induction members with
  | nil => exact fun _ => rfl
  | cons m rest ih =>
    intro o ho
    obtain ⟨hm, hrest⟩ := List.forall_mem_cons.mp hmembers
    rw [List.foldl_cons, List.foldl_cons, considerBy_loopState ho]
    exact ih hrest (argAux_ne_empty ho hm)

/-- **The owner is the member of the highest rank.** -/
theorem ownerBy_eq_argmax (hmembers : ∀ m ∈ members, m ≠ "") :
    ownerBy score members = (members.argmax (rank score)).getD "" := by
  have hloop : members.foldl (considerBy score) ("", 0) = loopState score (members.argmax (rank score)) :=
    foldl_considerBy hmembers (o := none) (by simp)
  unfold ownerBy
  rw [hloop]
  cases members.argmax (rank score) <;> rfl

theorem argmax_eq_some {m : String} :
    members.argmax (rank score) = some m ↔ m ∈ members ∧ ∀ x ∈ members, rank score x ≤ rank score m := by
  constructor
  · intro h
    exact ⟨List.argmax_mem h, fun x hx => List.le_of_mem_argmax hx h⟩
  · rintro ⟨hm, hle⟩
    refine List.mem_argmax_iff.mpr ⟨hm, hle, fun x hx hxm => ?_⟩
    rw [rank_injective (le_antisymm hxm (hle x hx))]

/-- What makes a member the owner. -/
theorem ownerBy_eq_iff (hmembers : ∀ m ∈ members, m ≠ "") {m : String} (hm : m ≠ "") :
    ownerBy score members = m ↔ m ∈ members ∧ ∀ x ∈ members, rank score x ≤ rank score m := by
  rw [ownerBy_eq_argmax hmembers, ← argmax_eq_some]
  cases h : members.argmax (rank score) with
  | none => simp [Ne.symm hm]
  | some x => simp

theorem ownerBy_mem (hmembers : ∀ m ∈ members, m ≠ "") (hne : members ≠ []) :
    ownerBy score members ∈ members := by
  have hsome : members.argmax (rank score) ≠ none := fun h => hne (List.argmax_eq_none.mp h)
  obtain ⟨m, hm⟩ := Option.ne_none_iff_exists'.mp hsome
  rw [ownerBy_eq_argmax hmembers, hm]
  exact List.argmax_mem hm

/-- The owner depends on the set of members only. -/
theorem ownerBy_congr {members' : List String} (hmembers : ∀ m ∈ members, m ≠ "")
    (h : ∀ m, m ∈ members' ↔ m ∈ members) : ownerBy score members' = ownerBy score members := by
  have hmembers' : ∀ m ∈ members', m ≠ "" := fun m hm => hmembers m ((h m).mp hm)
  by_cases hne : members = []
  · subst hne
    obtain rfl : members' = [] := List.eq_nil_iff_forall_not_mem.mpr fun m hm => by simpa using (h m).mp hm
    rfl
  · have hmem : ownerBy score members ∈ members := ownerBy_mem hmembers hne
    obtain ⟨-, hbest⟩ := (ownerBy_eq_iff hmembers (hmembers _ hmem)).mp rfl
    exact (ownerBy_eq_iff hmembers' (hmembers _ hmem)).mpr ⟨(h _).mpr hmem, fun x hx => hbest x ((h x).mp hx)⟩

/-- A member that joins becomes the owner, or nothing changes. -/
theorem ownerBy_join (hmembers : ∀ m ∈ members, m ≠ "") {m : String} (hm : m ≠ "") :
    ownerBy score (m :: members) = ownerBy score members ∨ ownerBy score (m :: members) = m := by
  have hmembers' : ∀ x ∈ m :: members, x ≠ "" := List.forall_mem_cons.mpr ⟨hm, hmembers⟩
  have hmem : ownerBy score (m :: members) ∈ m :: members := ownerBy_mem hmembers' (by simp)
  obtain ⟨-, hbest⟩ := (ownerBy_eq_iff hmembers' (hmembers' _ hmem)).mp rfl
  rcases List.mem_cons.mp hmem with heq | hold
  · exact .inr heq
  · refine .inl ((ownerBy_eq_iff hmembers (hmembers' _ hmem)).mpr ⟨hold, fun x hx => ?_⟩).symm
    exact hbest x (List.mem_cons_of_mem _ hx)

/-- Nothing changes when a member leaves that is not the owner. -/
theorem ownerBy_leave (hmembers : ∀ m ∈ members, m ≠ "") {m : String} (hm : m ≠ ownerBy score members) :
    ownerBy score (members.filter (· ≠ m)) = ownerBy score members := by
  by_cases hne : members = []
  · subst hne
    rfl
  have hmem : ownerBy score members ∈ members := ownerBy_mem hmembers hne
  obtain ⟨-, hbest⟩ := (ownerBy_eq_iff hmembers (hmembers _ hmem)).mp rfl
  refine (ownerBy_eq_iff (fun x hx => hmembers x (List.mem_of_mem_filter hx)) (hmembers _ hmem)).mpr
    ⟨?_, fun x hx => ?_⟩
  · exact List.mem_filter.mpr ⟨hmem, by simpa using Ne.symm hm⟩
  · exact hbest x (List.mem_of_mem_filter hx)

end Owner

/-- **Rendezvous ownership is order-independent and minimally disruptive**, whatever the scores are: the owner is a
function of the set of members and one of them; a member that joins takes over or changes nothing; a member that leaves
changes nothing unless it was the owner.  `DesiredOwner` is the case of the FNV-1a scores. -/
theorem owner_of_member_set (score : Int → String → UInt64) (partition : Int) (members : List String)
    (hmembers : ∀ m ∈ members, m ≠ "") :
    (∀ members', (∀ m, m ∈ members' ↔ m ∈ members) →
        ownerBy (score partition) members' = ownerBy (score partition) members) ∧
      (members ≠ [] → ownerBy (score partition) members ∈ members) ∧
      (members = [] → ownerBy (score partition) members = "") ∧
      (∀ m, m ≠ "" → ownerBy (score partition) (m :: members) = ownerBy (score partition) members ∨
        ownerBy (score partition) (m :: members) = m) ∧
      (∀ m, m ≠ ownerBy (score partition) members →
        ownerBy (score partition) (members.filter (· ≠ m)) = ownerBy (score partition) members) ∧
      desiredOwner partition members = ownerBy (ownerScore partition) members := by
  refine ⟨fun members' h => ownerBy_congr hmembers h, ownerBy_mem hmembers, ?_, fun m hm => ownerBy_join hmembers hm,
    fun m hm => ownerBy_leave hmembers hm, desiredOwner_eq partition members⟩
  rintro rfl
  rfl

/-- Two members with one score: the smaller name owns the partition, in both orders. -/
theorem owner_of_member_set_tie :
    ownerBy (fun _ => 7) ["relay-b", "relay-a"] = "relay-a" ∧
      ownerBy (fun _ => 7) ["relay-a", "relay-b"] = ownerBy (fun _ => 7) ["relay-b", "relay-a"] := by
  refine ⟨by decide, ?_⟩
  exact (owner_of_member_set (fun _ _ => 7) 0 ["relay-b", "relay-a"] (by decide)).1 ["relay-a", "relay-b"]
    (by intro m; simp [or_comm])

end Emitlane.Ordering
