import Mathlib.Logic.Function.Basic
import Mathlib.Data.List.Basic
import Mathlib.Data.List.Nodup

/-!
# Skynet.SocketChannel.Waiters

The coroutines that wait for a response of a channel (`lualib/socketchannel.lua`), with the tables
`__result` and `__result_data`. Both modes of a channel use them in the same way: a coroutine sleeps in
`wait_for_response`, a dispatcher writes its entries and wakes it, and the coroutine takes them out.

Coroutines are numbers, and so are the requests. `V` are the values of a response that are not nil.
-/

namespace Skynet
namespace SocketChannel

variable {V : Type}

/-- What a response function returns. -/
structure Outcome (V : Type) where
  resultOk : Bool
  resultData : Option V
  padding : Bool
deriving Repr, DecidableEq

/-- An entry of `__result`: `result_ok`, or `socket_error`. -/
inductive Result
  | ok
  | refused
  | socketError
deriving Repr, DecidableEq

/-- An entry of `__result_data`: a value, or the table of the parts. -/
inductive Data (V : Type)
  | one (v : V)
  | parts (vs : List V)
deriving Repr, DecidableEq

/-- How `wait_for_response` ends. -/
inductive Reply (V : Type)
  | returned (data : Option (Data V))
  | raised (data : Option (Data V))
  | socketError
deriving Repr, DecidableEq

structure Waiters (V : Type) where
  /-- The coroutines in the `skynet.wait` of `wait_for_response`, with their requests. -/
  waiting : Nat → Option Nat
  /-- Those that `skynet.wakeup` marked. -/
  woken : Nat → Bool
  result : Nat → Option Result
  resultData : Nat → Option (Data V)
  replies : List (Nat × Reply V)

namespace Waiters

def init : Waiters V :=
  { waiting := fun _ => none, woken := fun _ => false, result := fun _ => none, resultData := fun _ => none
    replies := [] }

/-- `table.insert`, which drops nil. Only tables of parts are inserted into: an entry with one value is
written when its coroutine leaves `__thread`. -/
def insertPart : Option (Data V) → Option V → Data V
  | some (.parts vs), v => .parts (vs ++ v.toList)
  | _, v => .parts v.toList

/-- The request `num` of the coroutine `co` is in `skynet.wait`. -/
def wait (w : Waiters V) (co num : Nat) : Waiters V := { w with waiting := Function.update w.waiting co (some num) }

/-- `padding and result_ok`: the part is kept, and the coroutine goes on sleeping. -/
def append (w : Waiters V) (co : Nat) (v : Option V) : Waiters V :=
  { w with resultData := Function.update w.resultData co (some (insertPart (w.resultData co) v)) }

/-- `skynet.wakeup`, for a coroutine in `skynet.wait`. -/
def wakeup (w : Waiters V) (co : Nat) : Waiters V :=
  if (w.waiting co).isSome then { w with woken := Function.update w.woken co true } else w

/-- The entries of `co` in `__result` and `__result_data`. -/
def put (w : Waiters V) (co : Nat) (result : Result) (data : Option (Data V)) : Waiters V :=
  { w with
    result := Function.update w.result co (some result)
    resultData := Function.update w.resultData co data }

/-- The last part of a response. -/
def settle (w : Waiters V) (co : Nat) (resultOk : Bool) (v : Option V) : Waiters V :=
  let data := if resultOk ∧ (w.resultData co).isSome then some (insertPart (w.resultData co) v) else v.map .one
  (w.put co (if resultOk then .ok else .refused) data).wakeup co

/-- `socket_error` for the coroutine `co`. -/
def fail (w : Waiters V) (errmsg : Option V) (co : Nat) : Waiters V :=
  (w.put co .socketError (errmsg.map .one)).wakeup co

/-- The loop of `wakeup_all`. -/
def failAll (w : Waiters V) (errmsg : Option V) (cos : List Nat) : Waiters V := cos.foldl (fail · errmsg) w

def reply : Option Result → Option (Data V) → Reply V
  | some .socketError, some d => .raised (some d)
  | some .socketError, none => .socketError
  | some .ok, d => .returned d
  | _, d => .raised d

/-- The rest of `wait_for_response`, when the coroutine is resumed. -/
def collect (w : Waiters V) (co : Nat) : Option (Waiters V) :=
  match w.waiting co with
  | some num =>
    if w.woken co then
      some
        { waiting := Function.update w.waiting co none
          woken := Function.update w.woken co false
          result := Function.update w.result co none
          resultData := Function.update w.resultData co none
          replies := w.replies ++ [(num, reply (w.result co) (w.resultData co))] }
    else none
  | none => none

/-! ### Lemmas -/

/-- The coroutine `co` waits for the request `num`, and nobody has woken it. -/
structure Pending (w : Waiters V) (co num : Nat) : Prop where
  waiting : w.waiting co = some num
  woken : w.woken co = false
  result : w.result co = none

/-- The entries of the coroutine `co` are the same in `w` and `w'`. -/
structure SameAt (w w' : Waiters V) (co : Nat) : Prop where
  waiting : w'.waiting co = w.waiting co
  woken : w'.woken co = w.woken co
  result : w'.result co = w.result co
  resultData : w'.resultData co = w.resultData co

section Lemmas

variable {w w' w'' : Waiters V} {co co' num : Nat}

theorem SameAt.refl : SameAt w w co := ⟨rfl, rfl, rfl, rfl⟩

theorem SameAt.trans (h : SameAt w w' co) (h' : SameAt w' w'' co) : SameAt w w'' co :=
  ⟨h'.waiting.trans h.waiting, h'.woken.trans h.woken, h'.result.trans h.result, h'.resultData.trans h.resultData⟩

theorem SameAt.pending (h : SameAt w w' co) (hp : Pending w co num) : Pending w' co num :=
  ⟨h.waiting.trans hp.waiting, h.woken.trans hp.woken, h.result.trans hp.result⟩

/-- One coroutine, if its wait is not changed. -/
theorem wait_same (hne : co' ≠ co) : SameAt w (w.wait co num) co' :=
  ⟨Function.update_of_ne hne .., rfl, rfl, rfl⟩

theorem append_same (v : Option V) (hne : co' ≠ co) : SameAt w (w.append co v) co' :=
  ⟨rfl, rfl, rfl, Function.update_of_ne hne ..⟩

theorem wakeup_same (hne : co' ≠ co) : SameAt w (w.wakeup co) co' := by
  unfold wakeup
  split
  · exact ⟨rfl, Function.update_of_ne hne .., rfl, rfl⟩
  · exact SameAt.refl

theorem put_same (result : Result) (data : Option (Data V)) (hne : co' ≠ co) : SameAt w (w.put co result data) co' :=
  ⟨rfl, rfl, Function.update_of_ne hne .., Function.update_of_ne hne ..⟩

theorem settle_same (resultOk : Bool) (v : Option V) (hne : co' ≠ co) : SameAt w (w.settle co resultOk v) co' :=
  (put_same _ _ hne).trans (wakeup_same hne)

theorem fail_same (errmsg : Option V) (hne : co' ≠ co) : SameAt w (w.fail errmsg co) co' :=
  (put_same _ _ hne).trans (wakeup_same hne)

theorem failAll_same (errmsg : Option V) {cos : List Nat} (hne : co' ∉ cos) : SameAt w (w.failAll errmsg cos) co' := by
  induction cos generalizing w with
  | nil => exact SameAt.refl
  | cons co cos ih =>
    rw [List.mem_cons, not_or] at hne
    exact (fail_same errmsg hne.1).trans (ih hne.2)

@[simp] theorem wakeup_waiting : (w.wakeup co).waiting = w.waiting := by
  unfold wakeup; split <;> rfl

@[simp] theorem wakeup_result : (w.wakeup co).result = w.result := by
  unfold wakeup; split <;> rfl

@[simp] theorem wakeup_resultData : (w.wakeup co).resultData = w.resultData := by
  unfold wakeup; split <;> rfl

@[simp] theorem wakeup_replies : (w.wakeup co).replies = w.replies := by
  unfold wakeup; split <;> rfl

end Lemmas

/-! ### Replies -/

/-- Each coroutine with a result has one that `A` allows for its request, and so has each reply. -/
structure Sound (A : Nat → Option (Data V) → Prop) (w : Waiters V) : Prop where
  idle : ∀ co, w.waiting co = none → w.woken co = false ∧ w.result co = none ∧ w.resultData co = none
  results : ∀ co num, w.waiting co = some num → w.result co = some .ok → A num (w.resultData co)
  replies : ∀ num d, (num, Reply.returned d) ∈ w.replies → A num d

section Sound

variable {A B : Nat → Option (Data V) → Prop} {w w' : Waiters V} {co num : Nat}

theorem sound_init : Sound A (init : Waiters V) := ⟨fun _ _ => ⟨rfl, rfl, rfl⟩, nofun, nofun⟩

theorem Sound.mono (h : Sound A w) (hAB : ∀ num d, A num d → B num d) : Sound B w :=
  ⟨h.idle, fun co num hw hr => hAB num _ (h.results co num hw hr), fun num d hm => hAB num d (h.replies num d hm)⟩

/-- Only the entries of `co` change, and they stay sound. -/
theorem Sound.at (h : Sound A w) (hsame : ∀ co', co' ≠ co → SameAt w w' co') (hreplies : w'.replies = w.replies)
    (hco : w'.waiting co ≠ none)
    (hres : ∀ num, w'.waiting co = some num → w'.result co = some .ok → A num (w'.resultData co)) : Sound A w' where
  idle := by
    intro co' hw
    have hne : co' ≠ co := by rintro rfl; exact hco hw
    have hs := hsame co' hne
    rw [hs.woken, hs.result, hs.resultData]
    exact h.idle co' (hs.waiting ▸ hw)
  results := by
    intro co' num hw hr
    by_cases hne : co' = co
    · subst hne; exact hres num hw hr
    · have hs := hsame co' hne
      rw [hs.resultData]
      exact h.results co' num (hs.waiting ▸ hw) (hs.result ▸ hr)
  replies := by rw [hreplies]; exact h.replies

theorem Sound.wait (h : Sound A w) (hw : w.waiting co = none) : Sound A (w.wait co num) := by
  have hself : (w.wait co num).waiting co = some num := Function.update_self ..
  refine h.at (fun co' hne => wait_same hne) rfl (by rw [hself]; nofun) ?_
  intro num' _ hr
  have hnone : (w.wait co num).result co = none := (h.idle co hw).2.1
  rw [hnone] at hr
  cases hr

theorem Sound.append (h : Sound A w) (hp : Pending w co num) (v : Option V) : Sound A (w.append co v) := by
  refine h.at (fun co' hne => append_same v hne) rfl (by rw [show (w.append co v).waiting co = _ from hp.waiting]; nofun) ?_
  intro num' _ hr
  have hnone : (w.append co v).result co = none := hp.result
  rw [hnone] at hr
  cases hr

theorem Sound.settle (h : Sound A w) (hp : Pending w co num) {resultOk : Bool} {v : Option V}
    (hA : resultOk = true → A num ((w.settle co resultOk v).resultData co)) : Sound A (w.settle co resultOk v) := by
  have hw : (w.settle co resultOk v).waiting co = some num := by
    simp only [Waiters.settle, wakeup_waiting]; exact hp.waiting
  refine h.at (fun co' hne => settle_same resultOk v hne) (by simp only [Waiters.settle, wakeup_replies]; rfl)
    (by rw [hw]; nofun) ?_
  intro num' hnum hr
  rw [hw] at hnum
  cases hnum
  simp only [Waiters.settle, wakeup_result, put, Function.update_self] at hr
  cases resultOk with
  | true => exact hA rfl
  | false => cases hr

theorem Sound.fail (h : Sound A w) (hw : w.waiting co ≠ none) (errmsg : Option V) : Sound A (w.fail errmsg co) := by
  refine h.at (fun co' hne => fail_same errmsg hne) (by simp only [Waiters.fail, wakeup_replies]; rfl)
    (by simp only [Waiters.fail, wakeup_waiting]; exact hw) ?_
  intro num _ hr
  simp only [Waiters.fail, wakeup_result, put, Function.update_self] at hr
  cases hr

theorem fail_waiting (errmsg : Option V) : (w.fail errmsg co).waiting = w.waiting := by
  simp only [Waiters.fail, wakeup_waiting]; rfl

theorem Sound.failAll (h : Sound A w) (errmsg : Option V) {cos : List Nat} (hw : ∀ co ∈ cos, w.waiting co ≠ none) :
    Sound A (w.failAll errmsg cos) := by
  induction cos generalizing w with
  | nil => exact h
  | cons co cos ih =>
    refine ih (h.fail (hw co (List.mem_cons_self ..)) errmsg) ?_
    intro co' hco'
    rw [fail_waiting]
    exact hw co' (List.mem_cons_of_mem _ hco')

@[simp] theorem settle_waiting (resultOk : Bool) (v : Option V) : (w.settle co resultOk v).waiting = w.waiting := by
  simp only [Waiters.settle, wakeup_waiting]; rfl

@[simp] theorem settle_replies (resultOk : Bool) (v : Option V) : (w.settle co resultOk v).replies = w.replies := by
  simp only [Waiters.settle, wakeup_replies]; rfl

theorem settle_resultData (resultOk : Bool) (v : Option V) : (w.settle co resultOk v).resultData co =
    if resultOk ∧ (w.resultData co).isSome then some (insertPart (w.resultData co) v) else v.map .one := by
  simp only [Waiters.settle, wakeup_resultData, put, Function.update_self]

theorem failAll_waiting (errmsg : Option V) (cos : List Nat) : (w.failAll errmsg cos).waiting = w.waiting := by
  induction cos generalizing w with
  | nil => rfl
  | cons co cos ih => exact ih.trans (fail_waiting errmsg)

theorem failAll_replies (errmsg : Option V) (cos : List Nat) : (w.failAll errmsg cos).replies = w.replies := by
  induction cos generalizing w with
  | nil => rfl
  | cons co cos ih =>
    refine ih.trans ?_
    simp only [Waiters.fail, wakeup_replies]; rfl

/-- A coroutine that waits is woken with a result. -/
theorem put_wakeup_woken (result : Result) (data : Option (Data V)) (hw : w.waiting co ≠ none) :
    ((w.put co result data).wakeup co).woken co = true ∧ ((w.put co result data).wakeup co).result co ≠ none := by
  have hsome : ((w.put co result data).waiting co).isSome = true := Option.isSome_iff_ne_none.mpr hw
  constructor
  · rw [wakeup, if_pos hsome]
    exact Function.update_self ..
  · simp only [wakeup_result, put, Function.update_self]
    nofun

theorem failAll_woken (errmsg : Option V) {cos : List Nat} (hco : co ∈ cos) (hw : w.waiting co ≠ none) :
    (w.failAll errmsg cos).woken co = true ∧ (w.failAll errmsg cos).result co ≠ none := by
  induction cos generalizing w with
  | nil => cases hco
  | cons co' cos ih =>
    by_cases hmem : co ∈ cos
    · exact ih hmem (by rw [fail_waiting]; exact hw)
    · have hsame : (w.fail errmsg co').SameAt (w.failAll errmsg (co' :: cos)) co := failAll_same errmsg hmem
      obtain rfl : co = co' := (List.mem_cons.mp hco).resolve_right hmem
      rw [hsame.woken, hsame.result]
      exact put_wakeup_woken _ _ hw

theorem collect_some (h : w.collect co = some w') :
    ∃ num, w.waiting co = some num ∧ w.woken co = true ∧ w'.waiting co = none ∧
      (w'.woken co = false ∧ w'.result co = none ∧ w'.resultData co = none) ∧
      (∀ co', co' ≠ co → SameAt w w' co') ∧ w'.replies = w.replies ++ [(num, reply (w.result co) (w.resultData co))] := by
  simp only [collect] at h
  split at h
  · rename_i num hw
    split at h
    · rename_i hwoken
      cases h
      refine ⟨num, hw, hwoken, Function.update_self .., ⟨Function.update_self .., Function.update_self .., Function.update_self ..⟩, ?_, rfl⟩
      intro co' hne
      exact ⟨Function.update_of_ne hne .., Function.update_of_ne hne .., Function.update_of_ne hne .., Function.update_of_ne hne ..⟩
    · cases h
  · cases h

theorem reply_returned {r : Option Result} {data d : Option (Data V)} (h : reply r data = .returned d) :
    r = some .ok ∧ data = d := by
  cases r with
  | none => cases h
  | some r =>
    cases r with
    | ok => cases h; exact ⟨rfl, rfl⟩
    | refused => cases h
    | socketError =>
      cases data with
      | none => cases h
      | some _ => cases h

theorem Sound.collect (h : Sound A w) (hc : w.collect co = some w') : Sound A w' := by
  obtain ⟨num, hw, -, hnone, hidle, hsame, hreplies⟩ := collect_some hc
  refine ⟨?_, ?_, ?_⟩
  · intro co' hw'
    by_cases hne : co' = co
    · subst hne; exact hidle
    · have hs := hsame co' hne
      rw [hs.woken, hs.result, hs.resultData]
      exact h.idle co' (hs.waiting ▸ hw')
  · intro co' num' hw' hr
    by_cases hne : co' = co
    · subst hne; rw [hnone] at hw'; cases hw'
    · have hs := hsame co' hne
      rw [hs.resultData]
      exact h.results co' num' (hs.waiting ▸ hw') (hs.result ▸ hr)
  · intro num' d hm
    rw [hreplies, List.mem_append, List.mem_singleton] at hm
    rcases hm with hm | hm
    · exact h.replies num' d hm
    · obtain ⟨rfl, hd⟩ := Prod.mk.inj hm
      obtain ⟨hr, rfl⟩ := reply_returned hd.symm
      exact h.results co _ hw hr

end Sound

/-! ### One reply for each request -/

/-- The requests below `n` that wait or have a reply: no two coroutines wait for the same one, and it has at most
one reply, none while it waits. -/
structure Once (w : Waiters V) (n : Nat) : Prop where
  waiting : ∀ co num, w.waiting co = some num → num < n ∧ num ∉ w.replies.map Prod.fst
  inj : ∀ co co' num, w.waiting co = some num → w.waiting co' = some num → co = co'
  nodup : (w.replies.map Prod.fst).Nodup
  replies : ∀ num ∈ w.replies.map Prod.fst, num < n

section Once

variable {w w' : Waiters V} {co n : Nat}

theorem once_init : Once (init : Waiters V) 0 := ⟨nofun, nofun, List.nodup_nil, nofun⟩

theorem Once.congr (h : Once w n) (hw : w'.waiting = w.waiting) (hr : w'.replies = w.replies) : Once w' n := by
  refine ⟨?_, ?_, ?_, ?_⟩
  · rw [hw, hr]; exact h.waiting
  · rw [hw]; exact h.inj
  · rw [hr]; exact h.nodup
  · rw [hr]; exact h.replies

/-- The request `n` is a new one. -/
theorem Once.wait (h : Once w n) : Once (w.wait co n) (n + 1) := by
  have hw : ∀ co', (w.wait co n).waiting co' = if co' = co then some n else w.waiting co' :=
    fun co' => Function.update_apply ..
  refine ⟨?_, ?_, h.nodup, fun num hm => Nat.lt_succ_of_lt (h.replies num hm)⟩
  · intro co' num hnum
    rw [hw] at hnum
    split at hnum
    · cases hnum
      exact ⟨Nat.lt_succ_self n, fun hm => Nat.lt_irrefl n (h.replies n hm)⟩
    · obtain ⟨h1, h2⟩ := h.waiting co' num hnum
      exact ⟨Nat.lt_succ_of_lt h1, h2⟩
  · intro co₁ co₂ num h₁ h₂
    rw [hw] at h₁ h₂
    split at h₁
    · rename_i he₁
      cases h₁
      split at h₂
      · rename_i he₂
        rw [he₁, he₂]
      · exact absurd (h.waiting co₂ _ h₂).1 (Nat.lt_irrefl _)
    · split at h₂
      · cases h₂
        exact absurd (h.waiting co₁ _ h₁).1 (Nat.lt_irrefl _)
      · exact h.inj co₁ co₂ num h₁ h₂

theorem Once.collect (h : Once w n) (hc : w.collect co = some w') : Once w' n := by
  obtain ⟨num, hw, -, hnone, -, hsame, hreplies⟩ := collect_some hc
  obtain ⟨hlt, hnew⟩ := h.waiting co num hw
  have hother : ∀ co' num', w'.waiting co' = some num' → co' ≠ co ∧ w.waiting co' = some num' := by
    intro co' num' hw'
    have hne : co' ≠ co := by
      rintro rfl
      rw [hnone] at hw'
      cases hw'
    exact ⟨hne, (hsame co' hne).waiting ▸ hw'⟩
  have hmem : ∀ num', num' ∈ w'.replies.map Prod.fst ↔ num' ∈ w.replies.map Prod.fst ∨ num' = num := by
    intro num'
    rw [hreplies, List.map_append, List.mem_append, List.map_singleton, List.mem_singleton]
  refine ⟨?_, ?_, ?_, ?_⟩
  · intro co' num' hw'
    obtain ⟨hne, hold⟩ := hother co' num' hw'
    obtain ⟨h1, h2⟩ := h.waiting co' num' hold
    refine ⟨h1, ?_⟩
    rw [hmem]
    rintro (hm | rfl)
    · exact h2 hm
    · exact hne (h.inj co' co _ hold hw)
  · intro co₁ co₂ num' h₁ h₂
    exact h.inj co₁ co₂ num' (hother co₁ num' h₁).2 (hother co₂ num' h₂).2
  · rw [hreplies, List.map_append, List.map_singleton]
    refine List.nodup_append.mpr ⟨h.nodup, List.nodup_singleton _, ?_⟩
    rintro a ha b hb rfl
    rw [List.mem_singleton] at hb
    rw [hb] at ha
    exact hnew ha
  · intro num' hm
    rcases (hmem num').mp hm with hm | rfl
    · exact h.replies num' hm
    · exact hlt

end Once

end Waiters
end SocketChannel
end Skynet
