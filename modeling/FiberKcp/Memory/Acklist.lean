import FiberKcp.Data.Refinement
import FiberKcp.Ikcp.Input

namespace FiberKcp.Ikcp

open FiberKcp.Data

/-! `acklist` as the array it is in `ikcp.c`.  A function fails where the code would
touch a word outside the array, read one that was never written, or not return. -/

/-- `acklist` has no words where it is `NULL`; a word not written yet is `none`. -/
structure AckArray where
  acklist : List (Option UInt32) := []
  ackblock : UInt32 := 0
  ackcount : UInt32 := 0
deriving DecidableEq, Repr

namespace AckArray

def load (acklist : List (Option UInt32)) (index : Nat) : Option UInt32 := acklist[index]?.join

def store (acklist : List (Option UInt32)) (index : Nat) (word : UInt32) :
    Option (List (Option UInt32)) :=
  if index < acklist.length then some (acklist.set index (some word)) else none

/-- `for (newblock = 8; newblock < newsize; newblock <<= 1)`, from any `newblock` on. -/
def newblockLoop (newsize : UInt32) : Nat → UInt32 → Option UInt32
  | 0, _ => none
  | fuel + 1, newblock =>
      if newblock < newsize then newblockLoop newsize fuel (newblock <<< 1) else some newblock

/-- The loop that copies the old array, from `x` on for `left` rounds. -/
def copyLoop (old : List (Option UInt32)) :
    Nat → UInt32 → List (Option UInt32) → Option (List (Option UInt32))
  | 0, _, acklist => some acklist
  | left + 1, x, acklist => do
      let sn ← load old (x * 2 + 0).toNat
      let acklist ← store acklist (x * 2 + 0).toNat sn
      let ts ← load old (x * 2 + 1).toNat
      let acklist ← store acklist (x * 2 + 1).toNat ts
      copyLoop old left (x + 1) acklist

def copyOld (array : AckArray) (acklist : List (Option UInt32)) : Option (List (Option UInt32)) :=
  if array.acklist ≠ [] then copyLoop array.acklist array.ackcount.toNat 0 acklist
  else some acklist

/-- The first part of `ikcp_ack_push`. -/
def grow (array : AckArray) (newsize : UInt32) : Option AckArray :=
  if newsize > array.ackblock then do
    let newblock ← newblockLoop newsize 32 8
    let acklist ← array.copyOld (List.replicate (newblock.toNat * 2) none)
    some { array with acklist := acklist, ackblock := newblock }
  else some array

def ikcpAckPush (array : AckArray) (sn ts : UInt32) : Option AckArray := do
  let array ← array.grow (array.ackcount + 1)
  let ptr := (array.ackcount * 2).toNat
  let acklist ← store array.acklist ptr sn
  let acklist ← store acklist (ptr + 1) ts
  some { array with acklist := acklist, ackcount := array.ackcount + 1 }

/-- `p * 2 + 1` is an `int`. -/
def ikcpAckGet (array : AckArray) (p : Nat) : Option (UInt32 × UInt32) :=
  if p * 2 + 1 < 2 ^ 31 then do
    let sn ← load array.acklist (p * 2 + 0)
    let ts ← load array.acklist (p * 2 + 1)
    some (sn, ts)
  else none

/-- "Flush acknowledges" of `ikcp_flush`: what it reads from `i` on. -/
def getLoop (array : AckArray) : Nat → Nat → Option (List (UInt32 × UInt32))
  | 0, _ => some []
  | left + 1, i => do
      let ack ← array.ikcpAckGet i
      let rest ← getLoop array left (i + 1)
      some (ack :: rest)

def pushAll (array : AckArray) : List (UInt32 × UInt32) → Option AckArray
  | [] => some array
  | ack :: rest => do
      let array ← array.ikcpAckPush ack.1 ack.2
      pushAll array rest

/-- The acknowledgements pushed until a flush, and those it reads. -/
def round (array : AckArray) (acks : List (UInt32 × UInt32)) :
    Option (AckArray × List (UInt32 × UInt32)) := do
  let array ← array.pushAll acks
  let sent ← array.getLoop array.ackcount.toNat 0
  some ({ array with ackcount := 0 }, sent)

/-- The pairs are in the first words, in order. -/
def Words (acklist : List (Option UInt32)) (acks : List (UInt32 × UInt32)) : Prop :=
  ∀ i ack, acks[i]? = some ack →
    acklist[i * 2]? = some (some ack.1) ∧ acklist[i * 2 + 1]? = some (some ack.2)

section Words

variable {acklist : List (Option UInt32)} {acks : List (UInt32 × UInt32)} {ack : UInt32 × UInt32}

theorem Words.load (words : Words acklist acks) {i : Nat} (here : acks[i]? = some ack) :
    AckArray.load acklist (i * 2) = some ack.1 ∧
      AckArray.load acklist (i * 2 + 1) = some ack.2 := by
  obtain ⟨first, second⟩ := words i ack here
  simp [AckArray.load, first, second]

/-- Both words of the next pair are written. -/
theorem Words.push (words : Words acklist acks) (room : acks.length * 2 + 1 < acklist.length) :
    ∃ half whole, store acklist (acks.length * 2) ack.1 = some half ∧
      store half (acks.length * 2 + 1) ack.2 = some whole ∧
      whole.length = acklist.length ∧ Words whole (acks ++ [ack]) := by
  refine ⟨acklist.set (acks.length * 2) (some ack.1),
    (acklist.set (acks.length * 2) (some ack.1)).set (acks.length * 2 + 1) (some ack.2), ?_, ?_, ?_,
    ?_⟩
  · rw [store, if_pos (by omega)]
  · rw [store, List.length_set, if_pos room]
  · rw [List.length_set, List.length_set]
  · intro i other here
    rcases Nat.lt_trichotomy i acks.length with before | same | after
    · rw [List.getElem?_append_left before] at here
      obtain ⟨first, second⟩ := words i other here
      rw [List.getElem?_set_ne (by omega), List.getElem?_set_ne (by omega),
        List.getElem?_set_ne (by omega), List.getElem?_set_ne (by omega)]
      exact ⟨first, second⟩
    · subst same
      rw [List.getElem?_append_right (Nat.le_refl _), Nat.sub_self] at here
      cases here
      rw [List.getElem?_set_ne (by omega), List.getElem?_set_self (by omega),
        List.getElem?_set_self (by simpa using room)]
      exact ⟨rfl, rfl⟩
    · rw [List.getElem?_eq_none (by simp; omega)] at here
      contradiction

theorem words_nil (acklist : List (Option UInt32)) : Words acklist [] := by
  intro i ack here
  contradiction

end Words

/-- The arithmetic of an index does not wrap below `2 ^ 31` words. -/
theorem index_eq {x : UInt32} (few : x.toNat < 2 ^ 30) :
    (x * 2).toNat = x.toNat * 2 ∧ (x * 2 + 0).toNat = x.toNat * 2 ∧
      (x * 2 + 1).toNat = x.toNat * 2 + 1 := by
  simp only [UInt32.toNat_add, UInt32.toNat_mul, UInt32.toNat_ofNat]
  omega

theorem newblockLoop_spec {newsize : UInt32} (few : newsize.toNat ≤ 2 ^ 31) {fuel : Nat}
    {newblock : UInt32} (reach : newsize.toNat ≤ newblock.toNat * 2 ^ fuel) :
    ∃ found, newblockLoop newsize (fuel + 1) newblock = some found ∧
      newsize.toNat ≤ found.toNat ∧ found.toNat ≤ max newblock.toNat (2 * newsize.toNat) := by
  induction fuel generalizing newblock with
  | zero =>
      rw [Nat.pow_zero, Nat.mul_one] at reach
      refine ⟨newblock, ?_, reach, Nat.le_max_left _ _⟩
      rw [newblockLoop, if_neg]
      rw [UInt32.lt_iff_toNat_lt]
      omega
  | succ fuel ih =>
      by_cases less : newblock < newsize
      · have below := UInt32.lt_iff_toNat_lt.mp less
        have doubled : (newblock <<< 1).toNat = newblock.toNat * 2 := by
          rw [UInt32.toNat_shiftLeft, Nat.shiftLeft_eq]
          change newblock.toNat * 2 ^ 1 % 2 ^ 32 = newblock.toNat * 2
          omega
        have onward : newsize.toNat ≤ (newblock <<< 1).toNat * 2 ^ fuel := by
          rw [doubled, Nat.mul_assoc, ← Nat.pow_succ']
          exact reach
        obtain ⟨found, done, enough, least⟩ := ih onward
        refine ⟨found, ?_, enough, ?_⟩
        · rw [newblockLoop, if_pos less]
          exact done
        · omega
      · refine ⟨newblock, ?_, ?_, Nat.le_max_left _ _⟩
        · rw [newblockLoop, if_neg less]
        · rw [UInt32.lt_iff_toNat_lt] at less
          omega

theorem copyLoop_spec {old acklist : List (Option UInt32)} {done rest : List (UInt32 × UInt32)}
    {x : UInt32} (words : Words old (done ++ rest)) (few : done.length + rest.length < 2 ^ 30)
    (here : x.toNat = done.length) (copied : Words acklist done)
    (room : (done.length + rest.length) * 2 ≤ acklist.length) :
    ∃ after, copyLoop old rest.length x acklist = some after ∧
      after.length = acklist.length ∧ Words after (done ++ rest) := by
  induction rest generalizing done x acklist with
  | nil =>
      refine ⟨acklist, rfl, rfl, ?_⟩
      rw [List.append_nil]
      exact copied
  | cons ack rest ih =>
      rw [List.length_cons] at few room
      have next : (done ++ ack :: rest)[done.length]? = some ack := by simp
      obtain ⟨sn, ts⟩ := words.load next
      obtain ⟨half, whole, low, high, sized, longer⟩ := @Words.push _ _ ack copied (by omega)
      obtain ⟨_, even, odd⟩ := @index_eq x (by omega)
      have onward : (x + 1).toNat = (done ++ [ack]).length := by
        simp only [UInt32.toNat_add, UInt32.toNat_ofNat, List.length_append, List.length_singleton]
        omega
      rw [List.append_cons] at words
      obtain ⟨after, finished, same, all⟩ := ih words
        (by simp only [List.length_append, List.length_singleton]; omega) onward longer
        (by simp only [List.length_append, List.length_singleton]; omega)
      refine ⟨after, ?_, same.trans sized, ?_⟩
      · rw [List.length_cons, copyLoop]
        simp only [even, odd, here, sn, ts, low, high, Option.bind_eq_bind, Option.bind_some]
        exact finished
      · rw [List.append_cons]
        exact all

/-- The array holds the acknowledgements, and is not larger than `limit` of them
ask for. -/
structure Holds (limit : Nat) (array : AckArray) (acks : List (UInt32 × UInt32)) : Prop where
  count : array.ackcount.toNat = acks.length
  size : array.acklist.length = array.ackblock.toNat * 2
  room : acks.length ≤ array.ackblock.toNat
  small : array.ackblock.toNat ≤ max 8 (2 * limit)
  words : Words array.acklist acks

section Holds

variable {limit : Nat} {array : AckArray} {acks : List (UInt32 × UInt32)}

theorem copyOld_spec (holds : array.Holds limit acks) (few : acks.length < 2 ^ 30)
    {acklist : List (Option UInt32)} (room : acks.length * 2 ≤ acklist.length) :
    ∃ after, array.copyOld acklist = some after ∧ after.length = acklist.length ∧
      Words after acks := by
  rw [copyOld]
  by_cases null : array.acklist = []
  · have size := holds.size
    have fits := holds.room
    rw [null, List.length_nil] at size
    have empty : acks = [] := List.eq_nil_of_length_eq_zero (by omega)
    rw [if_neg (not_not.mpr null), empty]
    exact ⟨acklist, rfl, rfl, words_nil acklist⟩
  · rw [if_pos null, holds.count]
    exact @copyLoop_spec array.acklist acklist [] acks 0 holds.words
      (by rw [List.length_nil]; omega) rfl (words_nil acklist) (by rw [List.length_nil]; omega)

theorem grow_spec (holds : array.Holds limit acks) (few : acks.length < limit)
    (most : limit ≤ 2 ^ 30) {newsize : UInt32} (next : newsize.toNat = acks.length + 1) :
    ∃ after, array.grow newsize = some after ∧ after.Holds limit acks ∧
      acks.length < after.ackblock.toNat := by
  rw [grow]
  by_cases full : newsize > array.ackblock
  · have eight : (8 : UInt32).toNat = 8 := rfl
    obtain ⟨newblock, found, enough, least⟩ := @newblockLoop_spec newsize (by omega) 31 8
      (by rw [eight]; omega)
    obtain ⟨acklist, copied, sized, words⟩ := @copyOld_spec _ _ _ holds (by omega)
      (List.replicate (newblock.toNat * 2) none) (by rw [List.length_replicate]; omega)
    rw [List.length_replicate] at sized
    have space : acks.length < newblock.toNat := by omega
    have small : newblock.toNat ≤ max 8 (2 * limit) := by omega
    refine ⟨{ array with acklist := acklist, ackblock := newblock }, ?_,
      ⟨holds.count, sized, Nat.le_of_lt space, small, words⟩, space⟩
    rw [if_pos full, found]
    simp only [copied, Option.bind_eq_bind, Option.bind_some]
  · refine ⟨array, if_neg full, holds, ?_⟩
    rw [gt_iff_lt, UInt32.lt_iff_toNat_lt] at full
    omega

theorem ikcpAckPush_spec (holds : array.Holds limit acks) (few : acks.length < limit)
    (most : limit ≤ 2 ^ 30) (ack : UInt32 × UInt32) :
    ∃ after, array.ikcpAckPush ack.1 ack.2 = some after ∧ after.Holds limit (acks ++ [ack]) := by
  have count := holds.count
  have next : (array.ackcount + 1).toNat = acks.length + 1 := by
    simp only [UInt32.toNat_add, UInt32.toNat_ofNat]
    omega
  obtain ⟨roomy, grown, kept, space⟩ := grow_spec holds few most next
  have size := kept.size
  have again := kept.count
  obtain ⟨half, whole, low, high, sized, longer⟩ := @Words.push _ _ ack kept.words (by omega)
  obtain ⟨even, _, _⟩ := @index_eq roomy.ackcount (by omega)
  rw [again] at even
  refine ⟨{ roomy with acklist := whole, ackcount := roomy.ackcount + 1 }, ?_,
    ⟨?_, sized.trans size, ?_, kept.small, longer⟩⟩
  · rw [ikcpAckPush]
    simp only [grown, even, low, high, Option.bind_eq_bind, Option.bind_some]
  · simp only [UInt32.toNat_add, UInt32.toNat_ofNat, List.length_append, List.length_singleton]
    omega
  · simp only [List.length_append, List.length_singleton]
    omega

theorem pushAll_spec (holds : array.Holds limit acks) {more : List (UInt32 × UInt32)}
    (few : acks.length + more.length ≤ limit) (most : limit ≤ 2 ^ 30) :
    ∃ after, array.pushAll more = some after ∧ after.Holds limit (acks ++ more) := by
  induction more generalizing array acks with
  | nil =>
      refine ⟨array, rfl, ?_⟩
      rw [List.append_nil]
      exact holds
  | cons ack rest ih =>
      rw [List.length_cons] at few
      obtain ⟨pushed, done, longer⟩ := ikcpAckPush_spec holds (by omega) most ack
      obtain ⟨after, finished, all⟩ := ih longer
        (by simp only [List.length_append, List.length_singleton]; omega)
      refine ⟨after, ?_, ?_⟩
      · rw [pushAll, done]
        exact finished
      · rw [List.append_cons]
        exact all

theorem getLoop_spec {done rest : List (UInt32 × UInt32)}
    (words : Words array.acklist (done ++ rest))
    (few : done.length + rest.length ≤ 2 ^ 30) :
    array.getLoop rest.length done.length = some rest := by
  induction rest generalizing done with
  | nil => rfl
  | cons ack rest ih =>
      rw [List.length_cons] at few
      have next : (done ++ ack :: rest)[done.length]? = some ack := by simp
      obtain ⟨sn, ts⟩ := words.load next
      have found : array.ikcpAckGet done.length = some ack := by
        rw [ikcpAckGet, if_pos (by omega)]
        simp only [Nat.add_zero, sn, ts, Option.bind_eq_bind, Option.bind_some]
      rw [List.append_cons] at words
      have onward := ih words (by simp only [List.length_append, List.length_singleton]; omega)
      rw [List.length_append, List.length_singleton] at onward
      rw [List.length_cons, getLoop]
      simp only [found, onward, Option.bind_eq_bind, Option.bind_some]

theorem round_spec (holds : array.Holds limit []) (few : acks.length ≤ limit)
    (most : limit ≤ 2 ^ 30) :
    ∃ after, array.round acks = some (after, acks) ∧ after.Holds limit [] := by
  obtain ⟨pushed, done, all⟩ := @pushAll_spec _ _ _ holds acks (by rw [List.length_nil]; omega) most
  rw [List.nil_append] at all
  have sent : pushed.getLoop acks.length 0 = some acks :=
    @getLoop_spec pushed [] acks all.words (by rw [List.length_nil]; omega)
  refine ⟨{ pushed with ackcount := 0 }, ?_, ⟨rfl, all.size, Nat.zero_le _, all.small, words_nil _⟩⟩
  rw [round, done, Option.bind_eq_bind, Option.bind_some, all.count, sent]
  rfl

end Holds

theorem rounds_spec {limit : Nat} {array : AckArray} (holds : array.Holds limit [])
    (most : limit ≤ 2 ^ 30) {rounds : List (List (UInt32 × UInt32))}
    (within : ∀ acks ∈ rounds, acks.length ≤ limit) :
    ∃ last, tryReplies round array rounds = some (last, rounds) ∧ last.Holds limit [] := by
  induction rounds generalizing array with
  | nil => exact ⟨array, rfl, holds⟩
  | cons acks rest ih =>
      obtain ⟨few, others⟩ := List.forall_mem_cons.mp within
      obtain ⟨flushed, sent, again⟩ := round_spec holds few most
      obtain ⟨last, done, final⟩ := ih again others
      refine ⟨last, ?_, final⟩
      rw [tryReplies, sent, Option.bind_eq_bind, Option.bind_some]
      simp only [done]
      rfl

theorem pushed_acklist (kcp : Ikcpcb) (acks : List (UInt32 × UInt32)) :
    (acks.foldl (fun kcp ack => Ikcp.ikcpAckPush kcp ack.1 ack.2) kcp).acklist =
      kcp.acklist ++ acks := by
  induction acks generalizing kcp with
  | nil => rw [List.foldl_nil, List.append_nil]
  | cons ack rest ih =>
      rw [List.foldl_cons, ih]
      exact (List.append_cons kcp.acklist ack rest).symm

/-- Through any number of flushes the array is the list of the control block, never
touched outside its `ackblock` pairs, and less than twice what was once needed. -/
theorem acklist_kept (kcp : Ikcpcb) {limit : Nat} (most : limit ≤ 2 ^ 30)
    {rounds : List (List (UInt32 × UInt32))} (within : ∀ acks ∈ rounds, acks.length ≤ limit) :
    ∃ last, tryReplies round {} rounds = some (last, rounds.map fun acks =>
        (acks.foldl (fun kcp ack => Ikcp.ikcpAckPush kcp ack.1 ack.2)
          { kcp with acklist := [] }).acklist) ∧
      last.acklist.length = last.ackblock.toNat * 2 ∧ last.ackblock.toNat ≤ max 8 (2 * limit) := by
  have empty : Holds limit {} [] :=
    ⟨rfl, rfl, Nat.le_refl _, Nat.zero_le _, words_nil _⟩
  obtain ⟨last, done, final⟩ := rounds_spec empty most within
  have same : rounds.map (fun acks =>
      (acks.foldl (fun kcp ack => Ikcp.ikcpAckPush kcp ack.1 ack.2)
        { kcp with acklist := [] }).acklist) = rounds.map id :=
    List.map_congr_left fun acks _ => pushed_acklist { kcp with acklist := [] } acks
  rw [same, List.map_id]
  exact ⟨last, done, final.size, final.small⟩

/-- Nine acknowledgements make the array grow from eight pairs to sixteen. -/
theorem acklist_kept_of_nine :
    ∃ last, tryReplies round {} [List.replicate 9 (1, 2), [(3, 4)]] =
        some (last, [List.replicate 9 (1, 2), [(3, 4)]].map fun acks =>
          (acks.foldl (fun kcp ack => Ikcp.ikcpAckPush kcp ack.1 ack.2)
            { ikcpCreate 1 with acklist := [] }).acklist) ∧
      last.acklist.length = last.ackblock.toNat * 2 ∧
      last.ackblock.toNat ≤ max 8 (2 * 9) :=
  acklist_kept (ikcpCreate 1) (by decide) (by decide)

end AckArray

end FiberKcp.Ikcp
