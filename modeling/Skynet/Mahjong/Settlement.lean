import Mathlib.Algebra.BigOperators.Group.List.Basic
import Mathlib.Data.List.Nodup
import Mathlib.Tactic.Ring
import Mathlib.Tactic.Linarith
import Skynet.Mahjong.Rules

/-!
# Skynet.Mahjong.Settlement

The totals of a round are zero-sum: what `onGetGameStopHuInfo` returns for records whose money was set by
`onSetGangTurnMonyInfo` and `onSetHuTurnMonyInfo`.

* `settle` : set the money of the records, then add them up.
* `ZeroSum` : the totals of the seats add up to 0, and each is the sum of its lines.
* `settle_zero_sum` : so it is exactly when no gang record stops the code with an error.
-/

namespace Skynet
namespace Mahjong

def setGangs (users : List Seat) (basePoint : Int) : List GangInfo → Option (List GangInfo)
  | [] => some []
  | v :: vs =>
    match onSetGangTurnMonyInfo users v basePoint, setGangs users basePoint vs with
    | some w, some ws => some (w :: ws)
    | _, _ => none

def settle (users : List Seat) (basePoint : Int) (gangs : List GangInfo) (hus : List HuInfo) :
    Option (Seat → StopInfo) :=
  match setGangs users basePoint gangs with
  | some gangs => onGetGameStopHuInfo gangs (hus.map fun v => onSetHuTurnMonyInfo users v basePoint)
  | none => none

def moneyOf (ds : List Detail) : Int := (ds.map Detail.iMoney).sum

structure ZeroSum (users : List Seat) (table : Seat → StopInfo) : Prop where
  zero : (users.map fun p => (table p).iTotalTurnMoney).sum = 0
  total : ∀ p ∈ users, (table p).iTotalTurnMoney = moneyOf (table p).iFanNameDeatail + (table p).iTotalLostMoney
  lost : ∀ p ∈ users, (table p).iTotalLostMoney = (users.map fun q => moneyOf ((table p).iLostDeatail q)).sum

/-- The winner of a gang is seated, and where one seat pays it is another one that is seated too. -/
def GangInfo.Seated (users : List Seat) (v : GangInfo) : Prop :=
  v.iSeatId ∈ users ∧ (isGang v.iOpValue = true → v.iTSeatId ∈ users ∧ v.iTSeatId ≠ v.iSeatId)

def HuInfo.Seated (users : List Seat) (v : HuInfo) : Prop :=
  v.iSeatId ∈ users ∧ (isQiangGangHu v.iOpValue = true → v.iTSeatId ∈ users ∧ v.iTSeatId ≠ v.iSeatId)

/-! ### Sums over the seats -/

theorem sum_allPay_of_notMem {seat : Seat} {users : List Seat} (money : Int) (ks : List Seat)
    (hsub : ∀ k ∈ ks, k ∈ users) (h : seat ∉ ks) :
    (ks.map (allPay users seat money)).sum = -(ks.length * money) := by
  induction ks with
  | nil => simp
  | cons k ks ih =>
    have hk : k ≠ seat := fun e => h (by simp [e])
    have hin : k ∈ users := hsub k (List.mem_cons_self ..)
    have hrest := ih (fun q hq => hsub q (List.mem_cons_of_mem _ hq)) (fun hm => h (List.mem_cons_of_mem _ hm))
    rw [List.map_cons, List.sum_cons, hrest]
    simp only [allPay, hk, hin, if_true, if_false, List.length_cons]
    push_cast
    ring

theorem sum_allPay {users : List Seat} {seat : Seat} (hnd : users.Nodup) (h : seat ∈ users) (money : Int) :
    (users.map (allPay users seat money)).sum = 0 := by
  have hperm : users.Perm (seat :: users.erase seat) := List.perm_cons_erase h
  have hfilter : (users.filter (· ≠ seat)).length = (users.erase seat).length := by
    rw [hnd.erase_eq_filter]
    congr 1
    exact List.filter_congr fun k _ => by simp [bne, beq_eq_decide]
  rw [(hperm.map _).sum_eq, List.map_cons, List.sum_cons,
    sum_allPay_of_notMem money _ (fun k hk => List.mem_of_mem_erase hk) (List.Nodup.not_mem_erase hnd), ← hfilter]
  simp [allPay]

theorem sum_update {users : List Seat} {seat : Seat} (hnd : users.Nodup) (h : seat ∈ users) (f : Seat → Int)
    (x : Int) : (users.map (Function.update f seat x)).sum = (users.map f).sum + (x - f seat) := by
  have hperm : users.Perm (seat :: users.erase seat) := List.perm_cons_erase h
  have hrest : (users.erase seat).map (Function.update f seat x) = (users.erase seat).map f := by
    refine List.map_congr_left fun k hk => Function.update_of_ne ?_ _ _
    rintro rfl
    exact List.Nodup.not_mem_erase hnd hk
  rw [(hperm.map _).sum_eq, (hperm.map f).sum_eq, List.map_cons, List.map_cons, List.sum_cons, List.sum_cons, hrest,
    Function.update_self]
  ring

theorem sum_onePays {users : List Seat} {seat payer : Seat} (hnd : users.Nodup) (h : seat ∈ users)
    (hp : payer ∈ users) (hne : payer ≠ seat) (money : Int) :
    (users.map (onePays seat payer money)).sum = 0 := by
  rw [onePays, sum_update hnd hp, sum_update hnd h, Function.update_of_ne hne]
  simp

theorem sum_gangTurnMoney {users : List Seat} (hnd : users.Nodup) {v w : GangInfo} (hv : v.Seated users)
    {basePoint : Int} (h : onSetGangTurnMonyInfo users v basePoint = some w) :
    (users.map w.iGangTurnMoney).sum = 0 := by
  simp only [onSetGangTurnMonyInfo] at h
  split at h
  · rename_i hg
    cases h
    obtain ⟨hp, hne⟩ := hv.2 hg
    exact sum_onePays hnd hv.1 hp hne _
  · split at h
    · cases h
      exact sum_allPay hnd hv.1 _
    · cases h

theorem sum_huTurnMoney {users : List Seat} (hnd : users.Nodup) {v : HuInfo} (hv : v.Seated users)
    (basePoint : Int) : (users.map (onSetHuTurnMonyInfo users v basePoint).iHuTurnMoney).sum = 0 := by
  simp only [onSetHuTurnMonyInfo]
  split
  · exact sum_allPay hnd hv.1 _
  · split
    · rename_i hq
      obtain ⟨hp, hne⟩ := hv.2 hq
      exact sum_onePays hnd hv.1 hp hne _
    · simp

/-! ### The lines of a seat -/

theorem moneyOf_append (ds es : List Detail) : moneyOf (ds ++ es) = moneyOf ds + moneyOf es := by
  simp [moneyOf]

theorem moneyOf_merge (temp : Detail) (ds : List Detail) : moneyOf (merge temp ds) = moneyOf ds + temp.iMoney := by
  induction ds with
  | nil => simp [merge, moneyOf]
  | cons d ds ih =>
    rw [merge]
    split
    · simp only [moneyOf, List.map_cons, List.sum_cons]
      ring
    · simp only [moneyOf, List.map_cons, List.sum_cons] at ih ⊢
      rw [ih]
      ring

/-- The totals of a seat are the sums of its lines. -/
structure Itemised (users : List Seat) (info : StopInfo) : Prop where
  total : info.iTotalTurnMoney = moneyOf info.iFanNameDeatail + info.iTotalLostMoney
  lost : info.iTotalLostMoney = (users.map fun q => moneyOf (info.iLostDeatail q)).sum

theorem Itemised.zero (users : List Seat) : Itemised users .zero := by
  constructor
  · simp [StopInfo.zero, moneyOf]
  · simp [StopInfo.zero, moneyOf]

/-- A line more for the money lost to `seat`. -/
theorem sum_lost {users : List Seat} {seat : Seat} (hnd : users.Nodup) (h : seat ∈ users)
    (lost : Seat → List Detail) (ds : List Detail) :
    (users.map fun q => moneyOf (Function.update lost seat ds q)).sum =
      (users.map fun q => moneyOf (lost q)).sum + (moneyOf ds - moneyOf (lost seat)) := by
  have hcomp : (fun q => moneyOf (Function.update lost seat ds q)) =
      Function.update (fun q => moneyOf (lost q)) seat (moneyOf ds) := by
    funext q
    by_cases hq : q = seat
    · subst hq
      simp
    · simp [hq]
  rw [hcomp, sum_update hnd h]

theorem Itemised.addGang {users : List Seat} {info : StopInfo} (it : Itemised users info) (hnd : users.Nodup)
    {v : GangInfo} (hv : v.iSeatId ∈ users) (p : Seat) : Itemised users (info.addGang v p) := by
  have ht := it.total
  have hl := it.lost
  simp only [StopInfo.addGang]
  split
  · constructor
    · simp only []
      rw [ht]
      ring
    · simp only []
      rw [sum_lost hnd hv, moneyOf_merge, hl]
      ring
  · split
    · constructor
      · simp only []
        rw [moneyOf_merge, ht]
        ring
      · exact hl
    · rename_i hneg hpos
      have hzero : v.iGangTurnMoney p = 0 := by omega
      constructor
      · simp only [hzero, add_zero]
        exact ht
      · exact hl

theorem Itemised.addHu {users : List Seat} {info : StopInfo} (it : Itemised users info) (hnd : users.Nodup)
    {v : HuInfo} (hv : v.iSeatId ∈ users) (p : Seat) : Itemised users (info.addHu v p) := by
  have ht := it.total
  have hl := it.lost
  simp only [StopInfo.addHu]
  split
  · constructor
    · simp only []
      rw [ht]
      ring
    · simp only []
      rw [sum_lost hnd hv, moneyOf_append, hl]
      simp only [moneyOf, List.map_cons, List.map_nil, List.sum_cons, List.sum_nil]
      ring
  · split
    · constructor
      · simp only []
        rw [moneyOf_append, ht]
        simp only [moneyOf, List.map_cons, List.map_nil, List.sum_cons, List.sum_nil]
        ring
      · exact hl
    · rename_i hneg hpos
      have hzero : v.iHuTurnMoney p = 0 := by omega
      constructor
      · simp only [hzero, add_zero]
        exact ht
      · exact hl

theorem addGang_total (info : StopInfo) (v : GangInfo) (p : Seat) :
    (info.addGang v p).iTotalTurnMoney = info.iTotalTurnMoney + v.iGangTurnMoney p := by
  simp only [StopInfo.addGang]
  split
  · rfl
  · split
    · rfl
    · rfl

theorem addHu_total (info : StopInfo) (v : HuInfo) (p : Seat) :
    (info.addHu v p).iTotalTurnMoney = info.iTotalTurnMoney + v.iHuTurnMoney p := by
  simp only [StopInfo.addHu]
  split
  · rfl
  · split
    · rfl
    · rfl

/-! ### All records -/

/-- Zero-sum totals with an itemised table for every seat. -/
def Fair (users : List Seat) (table : Seat → StopInfo) : Prop :=
  (users.map fun p => (table p).iTotalTurnMoney).sum = 0 ∧ ∀ p, Itemised users (table p)

theorem Fair.addGangs {users : List Seat} (hnd : users.Nodup) {gangs : List GangInfo}
    (hg : ∀ v ∈ gangs, v.iSeatId ∈ users ∧ (users.map v.iGangTurnMoney).sum = 0) {table table' : Seat → StopInfo}
    (hf : Fair users table) (h : addGangs table gangs = some table') : Fair users table' := by
  induction gangs generalizing table with
  | nil =>
    cases h
    exact hf
  | cons v vs ih =>
    have hvs : ∀ w ∈ vs, w.iSeatId ∈ users ∧ (users.map w.iGangTurnMoney).sum = 0 :=
      fun w hw => hg w (List.mem_cons_of_mem _ hw)
    simp only [Mahjong.addGangs] at h
    split at h
    · cases h
    · obtain ⟨hseat, hsum⟩ := hg v (List.mem_cons_self ..)
      refine ih hvs ⟨?_, fun p => (hf.2 p).addGang hnd hseat p⟩ h
      simp only [addGang_total, List.sum_map_add]
      rw [hf.1, hsum, add_zero]
    · exact ih hvs hf h

theorem Fair.addHus {users : List Seat} (hnd : users.Nodup) {hus : List HuInfo}
    (hh : ∀ v ∈ hus, v.iSeatId ∈ users ∧ (users.map v.iHuTurnMoney).sum = 0) {table : Seat → StopInfo}
    (hf : Fair users table) : Fair users (addHus table hus) := by
  induction hus generalizing table with
  | nil => exact hf
  | cons v vs ih =>
    obtain ⟨hseat, hsum⟩ := hh v (List.mem_cons_self ..)
    have hnext : Fair users fun p => (table p).addHu v p := by
      refine ⟨?_, fun p => (hf.2 p).addHu hnd hseat p⟩
      simp only [addHu_total, List.sum_map_add]
      rw [hf.1, hsum, add_zero]
    exact ih (fun w hw => hh w (List.mem_cons_of_mem _ hw)) hnext

theorem Fair.zero (users : List Seat) : Fair users fun _ => .zero :=
  ⟨by simp [StopInfo.zero], fun _ => Itemised.zero users⟩

theorem Fair.zeroSum {users : List Seat} {table : Seat → StopInfo} (hf : Fair users table) :
    ZeroSum users fun p => (table p).nameAll :=
  ⟨hf.1, fun p _ => (hf.2 p).total, fun p _ => (hf.2 p).lost⟩

theorem addGangs_isSome (table : Seat → StopInfo) (gangs : List GangInfo) :
    (addGangs table gangs).isSome = true ↔ ∀ v ∈ gangs, v.iQGHSeatIds ≠ none := by
  induction gangs generalizing table with
  | nil => simp [addGangs]
  | cons v vs ih =>
    simp only [addGangs, List.forall_mem_cons]
    split
    · rename_i hq
      simp [hq]
    · rename_i hq
      simp [hq, ih]
    · rename_i hq
      simp [hq, ih]

theorem onSetGangTurnMonyInfo_isSome (users : List Seat) (v : GangInfo) (basePoint : Int) :
    (onSetGangTurnMonyInfo users v basePoint).isSome = true ↔ (isGang v.iOpValue || isBuGang v.iOpValue) = true := by
  simp only [onSetGangTurnMonyInfo]
  split
  · rename_i hg
    simp [hg]
  · rename_i hg
    split
    · rename_i hb
      simp [hb]
    · rename_i hb
      simp [hg, hb]

theorem setGangs_isSome (users : List Seat) (basePoint : Int) (gangs : List GangInfo) :
    (setGangs users basePoint gangs).isSome = true ↔
      ∀ v ∈ gangs, (isGang v.iOpValue || isBuGang v.iOpValue) = true := by
  induction gangs with
  | nil => simp [setGangs]
  | cons v vs ih =>
    rw [List.forall_mem_cons, ← onSetGangTurnMonyInfo_isSome users v basePoint, ← ih]
    cases hv : onSetGangTurnMonyInfo users v basePoint with
    | none => simp [setGangs, hv]
    | some w =>
      cases hvs : setGangs users basePoint vs with
      | none => simp [setGangs, hv, hvs]
      | some ws => simp [setGangs, hv, hvs]

/-- Setting the money leaves the other fields. -/
theorem onSetGangTurnMonyInfo_some {users : List Seat} {v w : GangInfo} {basePoint : Int}
    (h : onSetGangTurnMonyInfo users v basePoint = some w) :
    w.iSeatId = v.iSeatId ∧ w.iQGHSeatIds = v.iQGHSeatIds := by
  simp only [onSetGangTurnMonyInfo] at h
  split at h
  · cases h
    exact ⟨rfl, rfl⟩
  · split at h
    · cases h
      exact ⟨rfl, rfl⟩
    · cases h

theorem setGangs_some {users : List Seat} (hnd : users.Nodup) {basePoint : Int} {gangs ws : List GangInfo}
    (hs : ∀ v ∈ gangs, v.Seated users) (h : setGangs users basePoint gangs = some ws) :
    (∀ w ∈ ws, w.iSeatId ∈ users ∧ (users.map w.iGangTurnMoney).sum = 0) ∧
      ((∀ w ∈ ws, w.iQGHSeatIds ≠ none) ↔ ∀ v ∈ gangs, v.iQGHSeatIds ≠ none) := by
  induction gangs generalizing ws with
  | nil =>
    cases h
    simp
  | cons v vs ih =>
    simp only [setGangs] at h
    split at h
    · rename_i w us hw hus
      cases h
      obtain ⟨hseat, hq⟩ := onSetGangTurnMonyInfo_some hw
      have hv : v.Seated users := hs v (List.mem_cons_self ..)
      obtain ⟨hall, hiff⟩ := ih (fun u hu => hs u (List.mem_cons_of_mem _ hu)) hus
      constructor
      · rw [List.forall_mem_cons]
        exact ⟨⟨by rw [hseat]; exact hv.1, sum_gangTurnMoney hnd hv hw⟩, hall⟩
      · rw [List.forall_mem_cons, List.forall_mem_cons, hq, hiff]
    · cases h

theorem onSetHuTurnMonyInfo_seat (users : List Seat) (v : HuInfo) (basePoint : Int) :
    (onSetHuTurnMonyInfo users v basePoint).iSeatId = v.iSeatId := by
  simp only [onSetHuTurnMonyInfo]
  split
  · rfl
  · split
    · rfl
    · rfl

/-- What `onGetGameStopHuInfo` returns is fair. -/
theorem onGetGameStopHuInfo_zeroSum {users : List Seat} (hnd : users.Nodup) {gangs : List GangInfo}
    {hus : List HuInfo} (hg : ∀ v ∈ gangs, v.iSeatId ∈ users ∧ (users.map v.iGangTurnMoney).sum = 0)
    (hh : ∀ v ∈ hus, v.iSeatId ∈ users ∧ (users.map v.iHuTurnMoney).sum = 0) {table : Seat → StopInfo}
    (h : onGetGameStopHuInfo gangs hus = some table) : ZeroSum users table := by
  simp only [onGetGameStopHuInfo, Option.map_eq_some_iff] at h
  obtain ⟨table₁, h₁, rfl⟩ := h
  have hf₁ : Fair users table₁ := (Fair.zero users).addGangs hnd hg h₁
  have hf₂ : Fair users fun p => (table₁ p).nameGangs := ⟨hf₁.1, fun p => ⟨(hf₁.2 p).total, (hf₁.2 p).lost⟩⟩
  exact (hf₂.addHus hnd hh).zeroSum

/-- The totals are zero-sum and itemised exactly when every gang record is one of a ming gang or a bu gang, and
its `iQGHSeatIds` is set. -/
theorem settle_zero_sum {users : List Seat} (hnd : users.Nodup) (basePoint : Int) {gangs : List GangInfo}
    {hus : List HuInfo} (hg : ∀ v ∈ gangs, v.Seated users) (hh : ∀ v ∈ hus, v.Seated users) :
    (∃ table, settle users basePoint gangs hus = some table ∧ ZeroSum users table) ↔
      ∀ v ∈ gangs, (isGang v.iOpValue || isBuGang v.iOpValue) = true ∧ v.iQGHSeatIds ≠ none := by
  rw [forall₂_and, ← setGangs_isSome users basePoint]
  have hhus : ∀ v ∈ hus.map fun v => onSetHuTurnMonyInfo users v basePoint,
      v.iSeatId ∈ users ∧ (users.map v.iHuTurnMoney).sum = 0 := by
    intro w hw
    obtain ⟨v, hv, rfl⟩ := List.mem_map.mp hw
    rw [onSetHuTurnMonyInfo_seat]
    exact ⟨(hh v hv).1, sum_huTurnMoney hnd (hh v hv) basePoint⟩
  cases hs : setGangs users basePoint gangs with
  | none => simp [settle, hs]
  | some ws =>
    obtain ⟨hall, hiff⟩ := setGangs_some hnd hg hs
    simp only [settle, hs, Option.isSome_some, true_and]
    rw [← hiff, ← addGangs_isSome fun _ => .zero]
    constructor
    · rintro ⟨table, ht, -⟩
      simp only [onGetGameStopHuInfo, Option.map_eq_some_iff] at ht
      obtain ⟨table₁, h₁, -⟩ := ht
      rw [h₁]
      rfl
    · intro hsome
      obtain ⟨table₁, h₁⟩ := Option.isSome_iff_exists.mp hsome
      have ht : onGetGameStopHuInfo ws (hus.map fun v => onSetHuTurnMonyInfo users v basePoint) = some fun p =>
          (addHus (fun p => (table₁ p).nameGangs) (hus.map fun v => onSetHuTurnMonyInfo users v basePoint) p).nameAll := by
        rw [onGetGameStopHuInfo, h₁]
        rfl
      exact ⟨_, ht, onGetGameStopHuInfo_zeroSum hnd hall hhus ht⟩

/-- The record of a gang of seat 1, as `onDealGangTurnMoney` makes it but for `iQGHSeatIds`. -/
def gangOf (op : Nat) (payer : Seat) (iQGHSeatIds : Option (List Seat)) : GangInfo :=
  { iSeatId := 1
    iTSeatId := payer
    iOpValue := op
    iCardValue := 0x03
    iIsDone := true
    iGSPSeatIds := []
    iQGHSeatIds := iQGHSeatIds
    iGangTurnMoney := fun _ => 0 }

theorem settle_zero_sum_mingGang :
    ∃ table, settle [1, 2, 3, 4] 200 [gangOf GANG 2 (some [])] [] = some table ∧ ZeroSum [1, 2, 3, 4] table := by
  refine (settle_zero_sum (by decide) 200 ?_ (List.forall_mem_nil _)).mpr ?_
  · intro v hv
    cases List.mem_singleton.mp hv
    exact ⟨by decide, fun _ => ⟨by decide, by decide⟩⟩
  · intro v hv
    cases List.mem_singleton.mp hv
    exact ⟨by decide, nofun⟩

/-- A bu gang of seat 1 is settled: its record has no `iQGHSeatIds`, and there are no totals. -/
theorem settle_raises :
    ¬ ∀ (users : List Seat) (basePoint : Int) (gangs : List GangInfo) (hus : List HuInfo), users.Nodup →
      (∀ v ∈ gangs, v.Seated users) → (∀ v ∈ hus, v.Seated users) →
      ∃ table, settle users basePoint gangs hus = some table ∧ ZeroSum users table := by
  intro h
  have hseat : ∀ v ∈ [gangOf BU_GANG 1 none], v.Seated [1, 2, 3, 4] := by
    intro v hv
    cases List.mem_singleton.mp hv
    exact ⟨by decide, nofun⟩
  obtain ⟨table, ht, -⟩ := h [1, 2, 3, 4] 200 [gangOf BU_GANG 1 none] [] (by decide) hseat (List.forall_mem_nil _)
  cases ht

end Mahjong
end Skynet
