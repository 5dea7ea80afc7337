import MegaKV.Hash.Table
import MegaKV.Library.Strided

namespace MegaKV.Hash

open Library

def intMax : Nat := 2 ^ 31 - 1

inductive LaunchStop where
  | assertion
  | overflow
  deriving DecidableEq

/-- The grid and the last two arguments of a kernel. -/
structure Launch where
  numBlks : Nat
  threadsPerBlk : Nat
  totalElemNum : Int
  threadNum : Nat

def roundedThreads (numThread : Nat) : Nat :=
  if numThread % 32 ≠ 0 then (numThread + 31) &&& 0xffe0 else numThread

/-- The lines `gpu_hash_search` and `gpu_hash_delete` share; their first assertions differ. -/
def gpuHashLaunch (enough : Prop) [Decidable enough] (numElem : Int) (numThread threadsPerBlk : Nat) :
    Except LaunchStop Launch :=
  if intMax < numThread + threadsPerBlk then .error .overflow
  else if ¬enough then .error .assertion
  else if 1024 < threadsPerBlk then .error .assertion
  else if numThread % 32 ≠ 0 ∧ intMax < numThread + 31 then .error .overflow
  else if roundedThreads numThread % 32 ≠ 0 then .error .assertion
  else
    .ok { numBlks := (numThread + threadsPerBlk - 1) / threadsPerBlk
          threadsPerBlk := threadsPerBlk
          totalElemNum := numElem
          threadNum := roundedThreads numThread }

def gpuHashSearch (numElem : Int) (numThread threadsPerBlk : Nat) : Except LaunchStop Launch :=
  gpuHashLaunch (threadsPerBlk < numThread) numElem numThread threadsPerBlk

def gpuHashDelete (numElem : Int) (numThread threadsPerBlk : Nat) : Except LaunchStop Launch :=
  gpuHashLaunch (threadsPerBlk ≤ numThread) numElem numThread threadsPerBlk

section Threads

variable (g : Geometry) (launch : Launch)

def Launch.threads : Nat := launch.numBlks * launch.threadsPerBlk

def Launch.step : Nat := launch.threadNum >>> g.elemNumP

/-- The loop over `id` of the thread with this `idx`. -/
def Launch.ids (rounds idx : Nat) : Option (List Nat) :=
  strided intMax launch.totalElemNum (launch.step g) rounds (idx >>> g.elemNumP)

def Launch.Takes (idx id : Nat) : Prop := ∃ rounds ids, launch.ids g rounds idx = some ids ∧ id ∈ ids

/-- Every loop ends, and every element is taken by all lanes of a group. -/
structure Launch.Covers : Prop where
  ends : ∀ idx < launch.threads, ∃ rounds ids, launch.ids g rounds idx = some ids
  taken : ∀ id : Nat, (id : Int) < launch.totalElemNum →
    ∃ group, ∀ lane < g.elemNum, group * g.elemNum + lane < launch.threads ∧
      launch.Takes g (group * g.elemNum + lane) id

/-- The stride is not zero and overflows no index, and the grid has a group for each element or for
    each index below the stride. -/
structure Launch.Suffices : Prop where
  rounded : launch.threadNum ≠ 0
  room : launch.totalElemNum + launch.step g ≤ intMax + 1
  groups : min (launch.step g) launch.totalElemNum.toNat * g.elemNum ≤ launch.threads

end Threads

section Groups

variable {g : Geometry} {launch : Launch}

theorem group_shift (group : Nat) {lane : Nat} (inside : lane < g.elemNum) :
    (group * g.elemNum + lane) >>> g.elemNumP = group := by
  have count : g.elemNum = 2 ^ g.elemNumP := rfl
  rw [Nat.shiftRight_eq_div_pow, ← count, Nat.mul_comm, Nat.mul_add_div (Nat.zero_lt_of_lt inside),
    Nat.div_eq_of_lt inside, Nat.add_zero]

theorem Launch.Takes.residue {idx id : Nat} (takes : launch.Takes g idx id) :
    (∃ k, id = idx >>> g.elemNumP + k * launch.step g) ∧ id + launch.step g ≤ intMax := by
  obtain ⟨rounds, ids, ends, member⟩ := takes
  obtain ⟨place, _, room⟩ := strided_visits ends id member
  exact ⟨place, room⟩

theorem step_pos_iff (whole : launch.threadNum % 32 = 0) : 0 < launch.step g ↔ launch.threadNum ≠ 0 := by
  unfold Launch.step
  rw [Nat.shiftRight_eq_div_pow]
  constructor
  · intro positive zero
    rw [zero, Nat.zero_div] at positive
    exact Nat.lt_irrefl 0 positive
  · intro some
    have small : 2 ^ g.elemNumP ≤ 2 ^ 5 := Nat.pow_le_pow_right Nat.two_pos (Nat.le_of_lt g.small)
    exact Nat.div_pos (by omega) (Nat.two_pow_pos _)

theorem Launch.Covers.suffices (covers : launch.Covers g) (whole : launch.threadNum % 32 = 0)
    (some : 0 < launch.totalElemNum) : launch.Suffices g := by
  obtain ⟨last, count⟩ : ∃ last : Nat, launch.totalElemNum = last + 1 := ⟨(launch.totalElemNum - 1).toNat, by omega⟩
  have lanes : 0 < g.elemNum := g.elemNum_pos
  have taken : ∀ id ≤ last, ∃ group, ∀ lane < g.elemNum, group * g.elemNum + lane < launch.threads ∧
      launch.Takes g (group * g.elemNum + lane) id := by
    intro id inside
    exact covers.taken id (by omega)
  have positive : 0 < launch.step g := by
    apply Nat.pos_of_ne_zero
    intro stuck
    obtain ⟨group, complete⟩ := taken 0 (Nat.zero_le _)
    have exists' : 0 < launch.threads := Nat.zero_lt_of_lt (complete 0 lanes).1
    obtain ⟨rounds, ids, ends⟩ := covers.ends 0 exists'
    unfold Launch.ids at ends
    rw [stuck, Nat.zero_shiftRight, strided_stuck some] at ends
    cases ends
  refine ⟨(step_pos_iff whole).mp positive, ?_, ?_⟩
  · obtain ⟨group, complete⟩ := taken last (Nat.le_refl _)
    have room := (complete 0 lanes).2.residue.2
    omega
  · obtain ⟨top, least⟩ : ∃ top, min (launch.step g) launch.totalElemNum.toNat = top + 1 :=
      ⟨min (launch.step g) launch.totalElemNum.toNat - 1, by omega⟩
    obtain ⟨group, complete⟩ := taken top (by omega)
    have final : g.elemNum - 1 < g.elemNum := by omega
    obtain ⟨inside, takes⟩ := complete (g.elemNum - 1) final
    obtain ⟨⟨k, place⟩, _⟩ := takes.residue
    rw [group_shift group final] at place
    have first : k = 0 := by
      by_contra later
      have whole := Nat.mul_le_mul_right (launch.step g) (Nat.one_le_iff_ne_zero.mpr later)
      omega
    rw [first, Nat.zero_mul, Nat.add_zero] at place
    rw [least, place, Nat.succ_mul]
    omega

theorem Launch.Suffices.covers (enough : launch.Suffices g) (whole : launch.threadNum % 32 = 0) : launch.Covers g := by
  have positive : 0 < launch.step g := (step_pos_iff whole).mpr enough.rounded
  have loops : ∀ idx, ∃ rounds ids, launch.ids g rounds idx = some ids ∧ ∀ k,
      ((idx >>> g.elemNumP + k * launch.step g : Nat) : Int) < launch.totalElemNum →
        idx >>> g.elemNumP + k * launch.step g ∈ ids := fun _ => strided_complete positive enough.room
  refine ⟨?_, ?_⟩
  · intro idx _
    obtain ⟨rounds, ids, ends, _⟩ := loops idx
    exact ⟨rounds, ids, ends⟩
  · intro id inside
    refine ⟨id % launch.step g, ?_⟩
    intro lane bound
    have low := Nat.mod_lt id positive
    have below := Nat.mod_le id (launch.step g)
    constructor
    · have within : id % launch.step g + 1 ≤ min (launch.step g) launch.totalElemNum.toNat := by omega
      have groups := Nat.mul_le_mul_right g.elemNum within
      have grid := enough.groups
      rw [Nat.succ_mul] at groups
      omega
    · obtain ⟨rounds, ids, ends, visited⟩ := loops (id % launch.step g * g.elemNum + lane)
      rw [group_shift _ bound] at visited
      have place : id % launch.step g + id / launch.step g * launch.step g = id := by
        rw [Nat.mul_comm]
        exact Nat.mod_add_div id (launch.step g)
      have member := visited (id / launch.step g)
      rw [place] at member
      exact ⟨rounds, ids, ends, member inside⟩

theorem Launch.covers_nothing (launch : Launch) (none : ¬0 < launch.totalElemNum) : launch.Covers g := by
  refine ⟨?_, ?_⟩
  · intro idx _
    have first : (0 : Int) ≤ (idx >>> g.elemNumP : Nat) := Int.natCast_nonneg _
    exact ⟨1, [], strided_end fun inside => none (Int.lt_of_le_of_lt first inside)⟩
  · intro id inside
    omega

theorem Launch.covers_iff (whole : launch.threadNum % 32 = 0) :
    launch.Covers g ↔ (0 < launch.totalElemNum → launch.Suffices g) := by
  by_cases some : 0 < launch.totalElemNum
  · exact ⟨fun covers _ => covers.suffices whole some, fun enough => (enough some).covers whole⟩
  · exact ⟨fun _ impossible => absurd impossible some, fun _ => launch.covers_nothing some⟩

end Groups

section Coverage

variable (g : Geometry) (numElem : Int) (numThread threadsPerBlk : Nat)

/-- Nothing overflows, the count of threads is rounded to a number that is not zero, and the grid has
    enough whole groups for it or for the elements. -/
structure CoverCondition : Prop where
  grid : numThread + threadsPerBlk ≤ intMax
  rounding : numThread % 32 ≠ 0 → numThread + 31 ≤ intMax
  covering : 0 < numElem →
    roundedThreads numThread ≠ 0 ∧ numElem + (roundedThreads numThread >>> g.elemNumP : Nat) ≤ intMax + 1 ∧
      min (roundedThreads numThread >>> g.elemNumP) numElem.toNat * g.elemNum ≤
        (numThread + threadsPerBlk - 1) / threadsPerBlk * threadsPerBlk

variable {g numElem numThread threadsPerBlk}

theorem roundedThreads_whole (numThread : Nat) : roundedThreads numThread % 32 = 0 := by
  unfold roundedThreads
  split
  · have mask : 0xffe0 % 2 ^ 5 = 0 := by decide
    rw [show 32 = 2 ^ 5 from rfl, Nat.and_mod_two_pow, mask, Nat.and_zero]
  · rename_i whole
    exact not_not.mp whole

theorem gpuHashLaunch_covers_iff {enough : Prop} [Decidable enough] (passes : enough) (small : threadsPerBlk ≤ 1024) :
    (∃ launch, gpuHashLaunch enough numElem numThread threadsPerBlk = .ok launch ∧ launch.Covers g) ↔
      CoverCondition g numElem numThread threadsPerBlk := by
  have whole := roundedThreads_whole numThread
  by_cases grid : intMax < numThread + threadsPerBlk
  · have stops : gpuHashLaunch enough numElem numThread threadsPerBlk = .error .overflow := if_pos grid
    rw [stops]
    constructor
    · intro given
      obtain ⟨launch, impossible, _⟩ := given
      cases impossible
    · intro condition
      exact absurd condition.grid (Nat.not_le.mpr grid)
  · by_cases rounding : numThread % 32 ≠ 0 ∧ intMax < numThread + 31
    · have stops : gpuHashLaunch enough numElem numThread threadsPerBlk = .error .overflow := by
        rw [gpuHashLaunch, if_neg grid, if_neg (not_not_intro passes), if_neg (Nat.not_lt.mpr small), if_pos rounding]
      rw [stops]
      constructor
      · intro given
        obtain ⟨launch, impossible, _⟩ := given
        cases impossible
      · intro condition
        exact absurd (condition.rounding rounding.1) (Nat.not_le.mpr rounding.2)
    · have launched : gpuHashLaunch enough numElem numThread threadsPerBlk =
          .ok ⟨(numThread + threadsPerBlk - 1) / threadsPerBlk, threadsPerBlk, numElem, roundedThreads numThread⟩ := by
        rw [gpuHashLaunch, if_neg grid, if_neg (not_not_intro passes), if_neg (Nat.not_lt.mpr small), if_neg rounding,
          if_neg (not_not_intro whole)]
      rw [launched]
      constructor
      · intro given
        obtain ⟨launch, same, covers⟩ := given
        cases same
        refine ⟨Nat.not_lt.mp grid, fun odd => by omega, ?_⟩
        intro some
        have enough := (Launch.covers_iff whole).mp covers some
        exact ⟨enough.rounded, enough.room, enough.groups⟩
      · intro condition
        refine ⟨_, rfl, (Launch.covers_iff whole).mpr ?_⟩
        intro some
        obtain ⟨rounded, room, groups⟩ := condition.covering some
        exact ⟨rounded, room, groups⟩

theorem launches_cover_iff (g : Geometry) (numElem : Int) (numThread threadsPerBlk : Nat) (_some : 0 < threadsPerBlk)
    (small : threadsPerBlk ≤ 1024) :
    (threadsPerBlk < numThread →
      ((∃ launch, gpuHashSearch numElem numThread threadsPerBlk = .ok launch ∧ launch.Covers g) ↔
        CoverCondition g numElem numThread threadsPerBlk)) ∧
    (threadsPerBlk ≤ numThread →
      ((∃ launch, gpuHashDelete numElem numThread threadsPerBlk = .ok launch ∧ launch.Covers g) ↔
        CoverCondition g numElem numThread threadsPerBlk)) :=
  ⟨fun passes => gpuHashLaunch_covers_iff passes small, fun passes => gpuHashLaunch_covers_iff passes small⟩

theorem launches_cover_iff_config : (∃ launch, gpuHashSearch 32768 24576 256 = .ok launch ∧ launch.Covers gpuHash) ∧
    ∃ launch, gpuHashDelete 4095 16384 256 = .ok launch ∧ launch.Covers gpuHash := by
  have search := (launches_cover_iff gpuHash 32768 24576 256 (by decide) (by decide)).1 (by decide)
  have delete := (launches_cover_iff gpuHash 4095 16384 256 (by decide) (by decide)).2 (by decide)
  exact ⟨search.mpr ⟨by decide, by decide, by decide⟩, delete.mpr ⟨by decide, by decide, by decide⟩⟩

/-- The stride of 65505 threads is zero; three blocks of 11 threads have four whole groups and a stride
    of eight. -/
theorem launches_not_covering :
    (¬∃ launch, gpuHashSearch 1 65505 256 = .ok launch ∧ launch.Covers gpuHash) ∧
      ¬∃ launch, gpuHashDelete 8 33 11 = .ok launch ∧ launch.Covers gpuHash := by
  constructor
  · intro covers
    have condition := (gpuHashLaunch_covers_iff (by decide) (by decide)).mp covers
    exact (condition.covering (by decide)).1 (by decide)
  · intro covers
    have condition := (gpuHashLaunch_covers_iff (by decide) (by decide)).mp covers
    exact absurd (condition.covering (by decide)).2.2 (by decide)

end Coverage

end MegaKV.Hash
