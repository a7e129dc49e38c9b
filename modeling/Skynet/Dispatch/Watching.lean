import Skynet.Dispatch.Reply

/-!
# Skynet.Dispatch.Watching

`watching_service`: how often a service is waiting for us, as a count for each address.

* `Watched` : the count is the number of unfinished coroutines that have been started for requests from the address and of
  response closures for it that have not been used or discarded.
* `Balanced` : the steps that keep it. The branch of `suspend` for a coroutine that has died does not take its part off the
  count, and a closure takes its part off again when it is called with `"TEST"` once more.
* `counts_watched` : the run theorem.
-/

namespace Skynet
namespace Dispatch

/-- The source of the request that the coroutine handles. -/
def Book.origin (b : Book) (co : Nat) : Option Nat := (b.request co).bind fun r => b.requests[r]?.map Prod.fst

/-- The unfinished coroutines that have been started for messages from `a`. -/
def unfinished (s : State) (a : Nat) : Nat :=
  (List.range s.sched.coroutines).countP fun co => !(s.sched.point co).ended && s.book.origin co == some a

/-- The response closures for `a` that have not been used or discarded. -/
def Book.pending (b : Book) (a : Nat) : Nat := b.responses.countP fun c => c.coAddress == a && c.f == .function

def Watched (s : State) : Prop := ∀ a, (s.book.watchingService a).getD 0 = unfinished s a + s.book.pending a

/-- No coroutine that handles a request dies with an error, and a closure is not called with `"TEST"` when it has been used or discarded and
its requester is dead. -/
def Balanced (s : State) : Label → Prop
  | .op .raise => ∀ co, s.sched.control = .running co → s.book.request co = none
  | .op (.test k) => ∀ c, s.book.responses[k]? = some c → c.f ≠ .function → s.book.deadService c.coAddress = false
  | _ => True

/-! ### Counting -/

/-- One element of the range changes. -/
theorem countP_range_change {p q : Nat → Bool} {n co : Nat} (hco : co < n) (h : ∀ x, x ≠ co → q x = p x) :
    (List.range n).countP q + (if p co then 1 else 0) = (List.range n).countP p + (if q co then 1 else 0) := by
  induction n with
  | zero => omega
  | succ n ih =>
    rw [List.range_succ, List.countP_append, List.countP_append, List.countP_singleton, List.countP_singleton]
    by_cases hn : co = n
    · subst hn
      have hsame : (List.range co).countP q = (List.range co).countP p := by
        refine List.countP_congr fun x hx => ?_
        have hne : x ≠ co := by
          have := List.mem_range.mp hx
          omega
        rw [h x hne]
      rw [hsame]
      omega
    · have := ih (by omega)
      rw [h n (Ne.symm hn)]
      omega

section Book

variable {b b' : Book} {n co a : Nat} {spent : Nat → Prop}

/-- The coroutines that have a request from `a`. -/
def Book.handling (b : Book) (n a : Nat) : Nat := (List.range n).countP fun co => b.sessionCoroutineAddress co == some a

/-- The count, for the first `n` coroutines; those that have ended have no request. -/
structure Counted (b : Book) (n : Nat) (spent : Nat → Prop) : Prop where
  count : ∀ a, (b.watchingService a).getD 0 = b.handling n a + b.pending a
  origin : ∀ co, b.origin co = b.sessionCoroutineAddress co
  known : ∀ co r, b.request co = some r → r < b.requests.length
  spent : ∀ co, spent co → b.sessionCoroutineAddress co = none

/-- The tables that the count is about stay as they are. -/
structure Alike (b b' : Book) : Prop where
  address : b'.sessionCoroutineAddress = b.sessionCoroutineAddress
  watching : b'.watchingService = b.watchingService
  responses : b'.responses = b.responses
  request : b'.request = b.request
  requests : b'.requests = b.requests

theorem Alike.refl (b : Book) : Alike b b := ⟨rfl, rfl, rfl, rfl, rfl⟩

theorem Alike.trans {c : Book} (h : Alike b b') (h' : Alike b' c) : Alike b c :=
  ⟨h'.address.trans h.address, h'.watching.trans h.watching, h'.responses.trans h.responses, h'.request.trans h.request,
    h'.requests.trans h.requests⟩

theorem Counted.alike (h : Counted b n spent) (ha : Alike b b') : Counted b' n spent where
  count := fun a => by simpa only [Book.handling, Book.pending, ha.watching, ha.address, ha.responses] using h.count a
  origin := fun co => by simpa only [Book.origin, ha.address, ha.request, ha.requests] using h.origin co
  known := fun co r hr => by
    rw [ha.request] at hr
    rw [ha.requests]
    exact h.known co r hr
  spent := fun co hco => by rw [ha.address]; exact h.spent co hco

theorem Counted.weaken (h : Counted b n spent) {spent' : Nat → Prop} (hs : ∀ x, spent' x → b.sessionCoroutineAddress x = none) :
    Counted b n spent' := ⟨h.count, h.origin, h.known, hs⟩

/-- One more coroutine. -/
theorem Counted.grow (h : Counted b n spent) (hnone : b.sessionCoroutineAddress n = none) : Counted b (n + 1) spent where
  count := by
    intro a
    rw [h.count a, Book.handling, Book.handling, List.range_succ, List.countP_append, List.countP_singleton, hnone]
    simp only [reduceBEq, Bool.false_eq_true, if_false, Nat.add_zero]
  origin := h.origin
  known := h.known
  spent := h.spent

theorem Counted.request_eq_none (h : Counted b n spent) : b.request co = none ↔ b.sessionCoroutineAddress co = none := by
  rw [← h.origin co, Book.origin]
  cases hr : b.request co with
  | none => simp
  | some r => simp [h.known co r hr]

theorem Alike.demand (b : Book) (dest : Nat) (request : Option Nat) : Alike b (b.demand dest request) := by
  simp only [Book.demand]
  split
  · exact Alike.refl b
  · split
    · exact ⟨rfl, rfl, rfl, rfl, rfl⟩
    · exact Alike.refl b

theorem Alike.send (b : Book) (dest : Nat) (type : PType) (request : Option Nat) : Alike b (b.send dest type request) := by
  simp only [Book.send]
  split
  · exact Alike.refl b
  · split
    · exact ⟨rfl, rfl, rfl, rfl, rfl⟩
    · exact Alike.refl b

theorem Alike.report (b : Book) (co : Nat) : Alike b (b.report co) := by
  simp only [Book.report]
  split
  · split
    · exact Alike.send ..
    · exact Alike.refl b
  · exact Alike.refl b

theorem Alike.returnCommand (b : Book) (co : Nat) (fits : Bool) : Alike b (b.returnCommand co fits).1 := by
  simp only [Book.returnCommand]
  split
  · split
    · exact Alike.refl b
    · exact ⟨rfl, rfl, rfl, rfl, rfl⟩
  · rename_i addr _
    have hd := Alike.demand b addr (b.request co)
    split
    · exact hd
    · have hmark : Alike b { b.demand addr (b.request co) with
          sessionResponse := Function.update (b.demand addr (b.request co)).sessionResponse co true } :=
        ⟨hd.address, hd.watching, hd.responses, hd.request, hd.requests⟩
      split
      · exact hmark
      · exact hmark.trans (Alike.send ..)

/-- A reference is taken off. -/
theorem getD_releaseWatching (b : Book) (x a : Nat) :
    ((b.releaseWatching (some x)).watchingService a).getD 0 = (b.watchingService a).getD 0 - (if a = x then 1 else 0) := by
  simp only [Book.releaseWatching]
  split
  · rename_i hnone
    split
    · rename_i heq
      rw [heq, hnone]
      rfl
    · rfl
  · rename_i ref href
    by_cases heq : a = x
    · subst heq
      simp only [Function.update_self, href, if_true, Option.getD_some]
      split
      · rfl
      · simp only [Option.getD_none]
        omega
    · simp only [Function.update_of_ne heq, if_neg heq, Nat.sub_zero]

/-- The request of a coroutine goes, or it gets one. -/
theorem handling_update (hco : co < n) (address : Option Nat) (hb : b'.sessionCoroutineAddress =
    Function.update b.sessionCoroutineAddress co address) (a : Nat) :
    b'.handling n a + (if b.sessionCoroutineAddress co = some a then 1 else 0) =
      b.handling n a + (if address = some a then 1 else 0) := by
  have h := countP_range_change (p := fun co => b.sessionCoroutineAddress co == some a)
    (q := fun co => b'.sessionCoroutineAddress co == some a) hco fun x hx => by
      rw [hb, Function.update_of_ne hx]
  simpa only [Book.handling, hb, Function.update_self, beq_iff_eq] using h

/-! ### Operations -/

theorem Counted.responseCommand (h : Counted b n spent) (co : Nat) : Counted (b.responseCommand co).1 n spent := by
  simp only [Book.responseCommand]
  split
  · exact h
  · split
    · rename_i addr session r _ _ _
      split
      · exact h
      · rename_i ref href
        refine ⟨?_, h.origin, h.known, h.spent⟩
        intro a
        have hcount := h.count a
        by_cases ha : a = addr
        · subst ha
          rw [href] at hcount
          simp only [Book.pending, Book.handling, Function.update_self, List.countP_append, List.countP_singleton,
            Option.getD_some, beq_self_eq_true, Bool.and_self, if_true] at hcount ⊢
          omega
        · have hne : (addr == a) = false := beq_eq_false_iff_ne.mpr (Ne.symm ha)
          simp only [Book.pending, Book.handling, Function.update_of_ne ha, List.countP_append, List.countP_singleton, hne,
            Bool.false_and, Bool.false_eq_true, if_false] at hcount ⊢
          exact hcount
    · exact h

theorem Counted.exitCommand (h : Counted b n spent) (hco : co < n) :
    Counted (b.exitCommand co) n (fun x => spent x ∨ x = co) := by
  obtain ⟨w, hw⟩ := releaseWatching_eq b (b.sessionCoroutineAddress co)
  have hcount : ∀ a, (w a).getD 0 =
      (b.watchingService a).getD 0 - (if b.sessionCoroutineAddress co = some a then 1 else 0) := by
    intro a
    have hfield : w = (b.releaseWatching (b.sessionCoroutineAddress co)).watchingService := by rw [hw]
    rw [hfield]
    cases haddr : b.sessionCoroutineAddress co with
    | none => rfl
    | some addr =>
      rw [getD_releaseWatching]
      simp only [Option.some.injEq, eq_comm]
  simp only [Book.exitCommand, hw]
  refine ⟨?_, ?_, ?_, ?_⟩
  · intro a
    have hold := h.count a
    have hclear : (({ b with watchingService := w } : Book).clear co).sessionCoroutineAddress =
        Function.update b.sessionCoroutineAddress co none := rfl
    have hhand := handling_update hco none hclear a
    have hnew := hcount a
    simp only [reduceCtorEq, if_false, Nat.add_zero] at hhand
    simp only [Book.handling, Book.clear, Book.pending] at hhand hold ⊢
    omega
  · intro x
    by_cases hx : x = co
    · subst hx
      simp only [Book.origin, Book.clear, Function.update_self, Option.bind_none]
    · simp only [Book.origin, Book.clear, Function.update_of_ne hx]
      exact h.origin x
  · intro x r hr
    by_cases hx : x = co
    · subst hx
      simp only [Book.clear, Function.update_self, reduceCtorEq] at hr
    · simp only [Book.clear, Function.update_of_ne hx] at hr
      exact h.known x r hr
  · intro x hx
    by_cases hxc : x = co
    · subst hxc
      exact Function.update_self ..
    · simp only [Book.clear, Function.update_of_ne hxc]
      exact h.spent x (hx.resolve_right hxc)

/-- A closure ends. -/
theorem Counted.close (h : Counted b n spent) {k : Nat} {c : Response} (hc : b.responses[k]? = some c) (hf : c.f = .function) {f : Pack}
    (hf' : f ≠ .function) : Counted (b.close k c f) n spent := by
  obtain ⟨w, hw⟩ := releaseWatching_eq b (some c.coAddress)
  have hcount : ∀ a, (w a).getD 0 = (b.watchingService a).getD 0 - (if a = c.coAddress then 1 else 0) := by
    intro a
    rw [← getD_releaseWatching, hw]
  simp only [Book.close, hw]
  refine ⟨?_, h.origin, h.known, h.spent⟩
  intro a
  have hold := h.count a
  have hnew := hcount a
  obtain ⟨hk, hget⟩ := List.getElem?_eq_some_iff.mp hc
  have hset := List.countP_set (p := fun c : Response => c.coAddress == a && c.f == .function) (a := { c with f := f }) hk
  have hpend : (b.responses.set k { c with f := f }).countP (fun c => c.coAddress == a && c.f == .function) +
      (if a = c.coAddress then 1 else 0) = b.pending a := by
    rw [hset, hget]
    by_cases ha : a = c.coAddress
    · have hpos : 0 < b.pending a :=
        List.countP_pos_iff.mpr ⟨c, List.mem_of_getElem? hc, by simp [ha, hf]⟩
      simp only [Book.pending] at hpos ⊢
      simp only [ha, hf, beq_self_eq_true, Bool.and_self, if_true, beq_eq_false_iff_ne.mpr hf', Bool.and_false,
        Bool.false_eq_true, if_false] at hpos ⊢
      omega
    · simp only [Book.pending, beq_eq_false_iff_ne.mpr (Ne.symm ha), Bool.false_and, Bool.false_eq_true, if_false, if_neg ha]
      omega
  simp only [Book.pending, Book.handling] at hpend hold ⊢
  omega

theorem Counted.respond (h : Counted b n spent) (k : Nat) (ok fits : Bool) : Counted (b.respond k ok fits) n spent := by
  simp only [Book.respond]
  split
  · exact h
  · rename_i c hc
    have hd := Alike.demand b c.coAddress (some c.request)
    split
    · exact h.alike hd
    · rename_i hf
      refine ⟨?_, (h.alike hd).origin, (h.alike hd).known, (h.alike hd).spent⟩
      intro a
      have hold := (h.alike hd).count a
      obtain ⟨hk, hget⟩ := List.getElem?_eq_some_iff.mp hc
      have hset := List.countP_set (p := fun c : Response => c.coAddress == a && c.f == .function) (a := { c with f := .nil }) hk
      have hpend : (b.responses.set k { c with f := .nil }).countP (fun c => c.coAddress == a && c.f == .function) =
          b.pending a := by
        rw [hset, hget, hf]
        simp [Book.pending]
      simp only [Book.pending, Book.handling, hd.responses] at hpend hold ⊢
      omega
    · rename_i hf
      have hsend : Alike b (if (b.demand c.coAddress (some c.request)).deadService c.coAddress = true
          then b.demand c.coAddress (some c.request) else (b.demand c.coAddress (some c.request)).send c.coAddress
            (if ok = true ∧ fits = true then PType.response else PType.error) (some c.request)) := by
        split
        · exact hd
        · exact hd.trans (Alike.send ..)
      exact (h.alike hsend).close (f := .nil) (by rw [hsend.responses]; exact hc) hf (fun h => by cases h)

theorem Counted.test (h : Counted b n spent) {k : Nat}
    (hg : ∀ c, b.responses[k]? = some c → c.f ≠ .function → b.deadService c.coAddress = false) : Counted (b.test k) n spent := by
  simp only [Book.test]
  split
  · exact h
  · rename_i c hc
    split
    · rename_i hdead
      refine h.close hc ?_ (fun h => by cases h)
      by_contra hf
      rw [hg c hc hf] at hdead
      cases hdead
    · exact h

theorem Counted.exit (h : Counted b n spent) (m : Nat) : Counted (b.exit m) n spent := by
  have hreport : ∀ (cos : List Nat) (c : Book), Counted c n spent → Counted (cos.foldl Book.report c) n spent := by
    intro cos
    induction cos with
    | nil => exact fun _ hc => hc
    | cons co cos ih => exact fun c hc => ih _ (hc.alike (Alike.report c co))
  have hclose : ∀ (ks : List Nat) (c : Book), Counted c n spent → Counted (ks.foldl (fun b k => b.respond k false true) c) n spent := by
    intro ks
    induction ks with
    | nil => exact fun _ hc => hc
    | cons k ks ih => exact fun c hc => ih _ (hc.respond k false true)
  exact hclose _ _ (hreport _ _ h)

/-! ### Messages -/

/-- A coroutine that has no request gets one. -/
theorem Counted.register (h : Counted b n spent) (hnone : b.sessionCoroutineAddress co = none) (hco : co < n) (hs : ¬spent co)
    (source session : Nat) :
    Counted ((b.start source session co).register source session co) n spent := by
  refine ⟨?_, ?_, ?_, ?_⟩
  · intro a
    have hold := h.count a
    have hstart : ((b.start source session co).register source session co).sessionCoroutineAddress =
        Function.update b.sessionCoroutineAddress co (some source) := rfl
    have hhand := handling_update hco (some source) hstart a
    rw [hnone] at hhand
    simp only [reduceCtorEq, if_false, Nat.add_zero, Option.some.injEq] at hhand
    by_cases ha : a = source
    · subst ha
      simp only [if_true] at hhand
      simp only [Book.register, Book.start, Book.pending, Book.handling, Function.update_self, Option.getD_some] at hold hhand ⊢
      split
      · rename_i ref href
        rw [href, Option.getD_some] at hold
        omega
      · rename_i hzero
        rw [hzero, Option.getD_none] at hold
        omega
    · simp only [if_neg (Ne.symm ha)] at hhand
      simp only [Book.register, Book.start, Book.pending, Book.handling, Function.update_of_ne ha] at hold hhand ⊢
      omega
  · intro x
    by_cases hx : x = co
    · subst hx
      simp only [Book.origin, Book.register, Book.start, Function.update_self, Option.bind_some, List.getElem?_concat_length,
        Option.map_some]
    · have hold := h.origin x
      simp only [Book.origin, Book.register, Book.start, Function.update_of_ne hx] at hold ⊢
      rw [← hold]
      cases hr : b.request x with
      | none => rfl
      | some r => simp only [Option.bind_some, List.getElem?_append_left (h.known x r hr)]
  · intro x r hr
    simp only [Book.register, Book.start, List.length_append, List.length_singleton] at hr ⊢
    by_cases hx : x = co
    · subst hx
      simp only [Function.update_self, Option.some.injEq] at hr
      omega
    · simp only [Function.update_of_ne hx] at hr
      have := h.known x r hr
      omega
  · intro x hx
    have hne : x ≠ co := by
      rintro rfl
      exact hs hx
    simp only [Book.register, Book.start, Function.update_of_ne hne]
    exact h.spent x hx

/-- An error message: the reference that is taken is given back. -/
theorem Counted.errorMessage (h : Counted b n spent) (hnone : b.sessionCoroutineAddress co = none) (hreq : b.request co = none)
    (source session : Nat) : Counted ((if session = 0 then (b.start source session co).down source
      else b.start source session co).exitCommand co) n spent := by
  obtain ⟨dead, hbook⟩ : ∃ dead, (if session = 0 then (b.start source session co).down source else b.start source session co) =
      { b.start source session co with deadService := dead } := by
    split
    · simp only [Book.down]
      split
      · exact ⟨_, rfl⟩
      · exact ⟨_, rfl⟩
    · exact ⟨_, rfl⟩
  rw [hbook]
  have haddr : (b.start source session co).sessionCoroutineAddress co = some source := Function.update_self ..
  obtain ⟨w, hw⟩ := releaseWatching_eq { b.start source session co with deadService := dead } (some source)
  have hcount : ∀ a, (w a).getD 0 = (b.watchingService a).getD 0 := by
    intro a
    have hrelease := getD_releaseWatching { b.start source session co with deadService := dead } source a
    rw [hw] at hrelease
    simp only [Book.start] at hrelease
    rw [hrelease]
    by_cases ha : a = source
    · subst ha
      simp only [Function.update_self, Option.getD_some, if_true]
      split
      · rename_i ref href
        rw [href, Option.getD_some, Nat.add_sub_cancel]
      · rename_i hzero
        rw [hzero, Option.getD_none]
    · simp only [Function.update_of_ne ha, if_neg ha, Nat.sub_zero]
  -- the coroutine has no request before and after the message
  have hback {α : Type} {f : Nat → Option α} {x : Option α} (hf : f co = none) :
      Function.update (Function.update f co x) co none = f := by
    rw [Function.update_idem, ← hf, Function.update_eq_self]
  have halike : Alike { b with watchingService := w } (Book.exitCommand { b.start source session co with deadService := dead } co) := by
    simp only [Book.exitCommand, haddr, hw]
    exact ⟨hback hnone, rfl, rfl, hback hreq, rfl⟩
  have hback : Counted { b with watchingService := w } n spent := by
    refine ⟨?_, h.origin, h.known, h.spent⟩
    intro a
    rw [hcount]
    exact h.count a
  exact hback.alike halike

theorem Counted.unknown (h : Counted b n spent) (source session : Nat) (hasProto : Bool) : Counted (b.unknown source session hasProto) n spent := by
  have hgrow : ∀ c : Book, Counted c n spent → Counted { c with requests := c.requests ++ [(source, session)] } n spent := by
    intro c hc
    refine ⟨hc.count, ?_, ?_, hc.spent⟩
    · intro x
      have hold := hc.origin x
      simp only [Book.origin] at hold ⊢
      rw [← hold]
      cases hr : c.request x with
      | none => rfl
      | some r => simp only [Option.bind_some, List.getElem?_append_left (hc.known x r hr)]
    · intro x r hr
      have := hc.known x r hr
      simp only [List.length_append, List.length_singleton]
      omega
  have hsend : Alike b (if hasProto = false ∧ session ≠ 0 then b.send source .error (some b.requests.length) else b) := by
    split
    · exact Alike.send ..
    · exact Alike.refl b
  exact hgrow _ (h.alike hsend)

end Book

/-! ### Runs -/

/-- The coroutine has ended. -/
def Spent (s : Sched) (co : Nat) : Prop := (s.point co).ended = true

def Balance (s : State) : Prop := Counted s.book s.sched.coroutines (Spent s.sched)

theorem balance_init : Balance init := ⟨fun _ => rfl, fun _ => rfl, nofun, fun _ _ => rfl⟩

theorem Balance.watched {s : State} (h : Balance s) : Watched s := by
  intro a
  have hsame : unfinished s a = s.book.handling s.sched.coroutines a := by
    refine List.countP_congr fun co _ => ?_
    rw [h.origin co]
    cases hended : (s.sched.point co).ended with
    | true => simp [h.spent co hended]
    | false => simp
  rw [hsame]
  exact h.count a

section Step

variable {s s' : State}

/-- No coroutine ends, and none is created. -/
theorem Counted.going {b : Book} {s s' : Sched} (h : Counted b s.coroutines (Spent s)) (hg : Going s s') :
    Counted b s'.coroutines (Spent s') := by
  rw [hg.coroutines]
  refine h.weaken fun x hx => h.spent x ?_
  rw [Spent, ← hg.ended x hx]
  exact hx

theorem Balance.sched (h : Balance s) {sched : Sched} (hg : Going s.sched sched) : Balance { s with sched := sched } :=
  Counted.going h hg

/-- A coroutine is created. -/
theorem Counted.create {b : Book} {s s' : Sched} {co : Nat} {p : Point} (h : Counted b s.coroutines (Spent s)) (hsound : Sound s)
    (hc : s.create co p = some s') (hp : p.ended = false) :
    Counted b s'.coroutines (Spent s') ∧ b.sessionCoroutineAddress co = none ∧ ¬Spent s' co := by
  have hspent : ∀ x, Function.update s.point co p x = s'.point x → Spent s' x → Spent s x := by
    intro x hx hs
    rw [Spent, ← hx] at hs
    by_cases hxc : x = co
    · subst hxc
      rw [Function.update_self, hp] at hs
      cases hs
    · rwa [Function.update_of_ne hxc] at hs
  simp only [Sched.create] at hc
  split at hc
  · rename_i hco
    cases hc
    have hnone : b.sessionCoroutineAddress co = none := h.spent co (by rw [Spent, hsound.fresh co (Nat.le_of_eq hco.symm)]; rfl)
    refine ⟨(h.weaken fun x hx => h.spent x (hspent x rfl hx)).grow (hco ▸ hnone), hnone, ?_⟩
    simp only [Spent, Function.update_self, hp, Bool.false_eq_true, not_false_eq_true]
  · split at hc
    · rename_i hpool
      cases hc
      refine ⟨h.weaken fun x hx => h.spent x (hspent x rfl hx), h.spent co (by rw [Spent, hpool]; rfl), ?_⟩
      simp only [Spent, Function.update_self, hp, Bool.false_eq_true, not_false_eq_true]
    · cases hc

/-- The coroutine that ends has no request any more. -/
theorem Counted.finish {b : Book} {s s' : Sched} {co : Nat} {p : Point} (h : Counted b s.coroutines (fun x => Spent s x ∨ x = co))
    (hc : s'.coroutines = s.coroutines) (hp : s'.point = Function.update s.point co p) : Counted b s'.coroutines (Spent s') := by
  rw [hc]
  refine h.weaken fun x hx => h.spent x ?_
  by_cases hxc : x = co
  · exact .inr hxc
  · rw [Spent, hp, Function.update_of_ne hxc] at hx
    exact .inl hx

theorem balance_perform {co : Nat} {o : Op} (h : Balance s) (hsound : Sound s.sched) (hrun : s.sched.control = .running co)
    (hg : Balanced s (.op o)) (hp : perform s co o = some s') : Balance s' := by
  have hlt := (hsound.unused hrun).2
  cases o with
  | call service => cases hp; exact h.sched (Going.of_update rfl rfl rfl rfl)
  | sleep => cases hp; exact h.sched (Going.of_update rfl rfl rfl rfl)
  | wait => cases hp; exact h.sched (Going.of_update rfl rfl rfl rfl)
  | wakeup other => cases hp; exact h.sched (Going.wakeup _ other)
  | fork new =>
    rw [perform, Option.map_eq_some_iff] at hp
    obtain ⟨sched, hf, rfl⟩ := hp
    rw [Sched.fork, Option.map_eq_some_iff] at hf
    obtain ⟨t, ht, rfl⟩ := hf
    exact (Counted.create h hsound ht rfl).1
  | timeout new =>
    rw [perform, Option.map_eq_some_iff] at hp
    obtain ⟨sched, hf, rfl⟩ := hp
    rw [Sched.timeout, Option.map_eq_some_iff] at hf
    obtain ⟨t, ht, rfl⟩ := hf
    exact (Counted.create h hsound ht rfl).1
  | ret fits =>
    simp only [perform, Option.some.injEq] at hp
    subst hp
    exact (Counted.alike h (Alike.returnCommand ..)).going (Going.answered co _)
  | response =>
    simp only [perform, Option.some.injEq] at hp
    subst hp
    exact (Counted.responseCommand h co).going (Going.answered co _)
  | respond k ok fits => cases hp; exact Counted.respond h k ok fits
  | test k => cases hp; exact Counted.test h hg
  | finish => cases hp; exact (Counted.exitCommand h hlt).finish rfl rfl
  | raise =>
    cases hp
    have hnone := h.request_eq_none.mp (hg co hrun)
    have hcrash : s.book.crash co = s.book := by
      simp only [Book.crash, hnone]
      split
      · rename_i hsome
        cases hsome
      · rfl
    have hspent : Counted s.book s.sched.coroutines (fun x => Spent s.sched x ∨ x = co) :=
      h.weaken fun x hx => hx.elim (h.spent x) fun hx => hx ▸ hnone
    rw [Balance, hcrash]
    exact hspent.finish rfl rfl
  | exit =>
    cases hp
    have hg : Going s.sched { s.sched.exit co with quit := s.sched.quit } := Going.of_update rfl rfl rfl rfl
    have hgoing := (Counted.exit h s.sched.coroutines).going hg
    exact hgoing

theorem balance_dispatch {m : Message} (h : Balance s) (hsound : Sound s.sched) (hd : dispatch s m = some s') : Balance s' := by
  cases m with
  | response session =>
    simp only [dispatch] at hd
    split at hd
    · cases hd
      exact h.sched (Going.of_eq rfl rfl rfl)
    · cases hd
      exact h.sched (Going.of_eq rfl rfl rfl)
    · rw [Option.map_eq_some_iff] at hd
      obtain ⟨sched, hr, rfl⟩ := hd
      have hg := Going.resume hr
      exact h.sched ⟨hg.quit, hg.coroutines, hg.ended⟩
  | request source session co unpacks =>
    simp only [dispatch] at hd
    split at hd
    · cases hd
    · rename_i sched hsched
      obtain ⟨hcounted, hnone, hnew⟩ := Counted.create h hsound hsched rfl
      have hlt := (hsound.create (by simp [Point.sleeps]) hsched).2.2.2.2.2.2
      have hreg := hcounted.register hnone hlt hnew source session
      split at hd
      · rw [Option.map_eq_some_iff] at hd
        obtain ⟨t, hr, rfl⟩ := hd
        exact hreg.going (Going.resume hr)
      · cases hd
        exact hreg.going (Going.of_eq rfl rfl rfl)
  | error source session co order =>
    simp only [dispatch] at hd
    split at hd
    · cases hd
    · rename_i sched hsched
      rw [Option.map_eq_some_iff] at hd
      obtain ⟨t, ht, rfl⟩ := hd
      obtain ⟨queue, rfl⟩ := errorDispatch_eq ht
      obtain ⟨hcounted, hnone, -⟩ := Counted.create h hsound hsched rfl
      have hspent : Counted s.book sched.coroutines (fun x => Spent sched x ∨ x = co) :=
        hcounted.weaken fun x hx => hx.elim (hcounted.spent x) fun hx => hx ▸ hnone
      exact (hspent.errorMessage hnone (hcounted.request_eq_none.mpr hnone) source session).finish rfl rfl
  | unknown source session hasProto =>
    cases hd
    exact (Counted.unknown h source session hasProto).going (Going.of_eq rfl rfl rfl)

theorem balance_step {a : Label} (h : Balance s) (hsound : Sound s.sched) (hg : Balanced s a) (hs : step s a = some s') :
    Balance s' := by
  cases a with
  | die address =>
    cases hs
    exact Counted.alike h ⟨rfl, rfl, rfl, rfl, rfl⟩
  | message m =>
    simp only [step] at hs
    split at hs
    · exact balance_dispatch h hsound hs
    · cases hs
  | op o =>
    simp only [step] at hs
    split at hs
    · rename_i co hrun
      exact balance_perform h hsound hrun hg hs
    · cases hs
  | wakeup next =>
    simp only [step] at hs
    split at hs
    · rw [Option.map_eq_some_iff] at hs
      obtain ⟨sched, hd, rfl⟩ := hs
      exact h.sched (Going.dispatchWakeup hd)
    · cases hs
  | errors =>
    simp only [step] at hs
    split at hs
    · rw [Option.map_eq_some_iff] at hs
      obtain ⟨sched, hd, rfl⟩ := hs
      exact h.sched (Going.dispatchErrorQueue hd)
    · cases hs
  | returned =>
    simp only [step] at hs
    split at hs
    · cases hs
      exact h.sched (Going.returned _)
    · cases hs
  | forks next =>
    simp only [step] at hs
    split at hs
    · rw [Option.map_eq_some_iff] at hs
      obtain ⟨sched, hd, rfl⟩ := hs
      exact h.sched (Going.dispatchFork hd)
    · cases hs

end Step

/-- **References to requesters.** When no coroutine that handles a request dies with an error and no closure is tested again after it
has been used or discarded, `watching_service` counts the unfinished coroutines and the open closures of each requester. -/
theorem counts_watched (as : List Label) (s : State) (h : Lts.run step init as = some s)
    (hg : Lts.Guarded step Balanced init as) : Watched s := by
  have hinv : Sound s.sched ∧ Balance s :=
    Lts.run_invariant_of_guarded (P := fun s => Sound s.sched ∧ Balance s)
      (fun _ _ _ hinv hg hs => ⟨sound_step hinv.1 hs, balance_step hinv.2 hinv.1 hg hs⟩) h hg ⟨sound_init, balance_init⟩
  exact hinv.2.watched

/-! ### Examples -/

/-- A test for `Balanced`. -/
def steady (s : State) : Label → Bool
  | .op .raise => match s.sched.control with
    | .running co => s.book.request co == none
    | _ => true
  | .op (.test k) => match s.book.responses[k]? with
    | some c => c.f == .function
    | none => true
  | _ => true

theorem balanced_of_steady (s : State) (a : Label) (h : steady s a = true) : Balanced s a := by
  cases a with
  | op o =>
    cases o with
    | raise =>
      intro co hrun
      simp only [steady, hrun, beq_iff_eq] at h
      exact h
    | test k =>
      intro c hc hf
      simp only [steady, hc, beq_iff_eq] at h
      exact absurd h hf
    | _ => trivial
  | _ => trivial

/-- Two requests from 100; the closure of the first one is used when the second one is handled. -/
def twoRequests : List Label :=
  .message (.request 100 1 0 true) :: .op .response :: ending ++
    .message (.request 100 2 0 true) :: .op (.respond 0 true true) :: .op (.ret true) :: ending

theorem counts_watched_two : ∃ s, Lts.run step init twoRequests = some s ∧ s.book.requests = [(100, 1), (100, 2)] ∧
    s.book.watchingService 100 = none ∧ Watched s := by
  obtain ⟨s, hrun, hguard, hs⟩ := Lts.of_check
    (p := fun s => s.book.requests == [(100, 1), (100, 2)] && s.book.watchingService 100 == none) balanced_of_steady
    (show Lts.check step steady (fun s => s.book.requests == [(100, 1), (100, 2)] && s.book.watchingService 100 == none)
      init twoRequests = true by decide +kernel)
  obtain ⟨hr, hw⟩ := (Bool.and_eq_true ..).mp hs
  exact ⟨s, hrun, beq_iff_eq.mp hr, beq_iff_eq.mp hw, counts_watched twoRequests s hrun hguard⟩

/-- A request is handled by a coroutine that dies with an error. -/
def dying : List Label := [.message (.request 100 1 0 true), .op .raise, .forks none]

/-- The requester of a closure ends, and a coroutine that handles another request from it tests the closure twice. -/
def testing : List Label :=
  (.message (.request 100 1 0 true) :: .op .response :: ending : List Label) ++
    ([.message (.request 100 2 1 true), .op .sleep, .wakeup none, .errors, .returned, .forks none] : List Label) ++
    ([.die 100, .message (.error 100 0 0 []), .wakeup none, .errors, .returned, .forks none] : List Label) ++
    ([.message (.response 1), .op (.test 0), .op (.test 0), .op .sleep, .wakeup none, .errors, .returned, .forks none] :
      List Label)

/-- A coroutine that has died is still counted, and one that sleeps is not counted any more. -/
theorem count_lost :
    (∃ s, Lts.run step init dying = some s ∧ s.sched.control = .idle ∧ unfinished s 100 = 0 ∧ ¬Watched s) ∧
    ∃ s, Lts.run step init testing = some s ∧ s.sched.control = .idle ∧ unfinished s 100 = 1 ∧ ¬Watched s := by
  have htest : ∀ (as : List Label) (k : Nat), Lts.check step (fun _ _ => true) (fun s => s.sched.control == .idle &&
      unfinished s 100 == k && (s.book.watchingService 100).getD 0 != unfinished s 100 + s.book.pending 100) init as = true →
      ∃ s, Lts.run step init as = some s ∧ s.sched.control = .idle ∧ unfinished s 100 = k ∧ ¬Watched s := by
    intro as k h
    obtain ⟨s, hrun, -, hs⟩ := Lts.of_check (G := fun _ _ => True) (fun _ _ _ => trivial) h
    simp only [Bool.and_eq_true, beq_iff_eq, bne_iff_ne] at hs
    exact ⟨s, hrun, hs.1.1, hs.1.2, fun hw => hs.2 (hw 100)⟩
  exact ⟨htest dying 0 (by decide +kernel), htest testing 1 (by decide +kernel)⟩

end Dispatch
end Skynet
