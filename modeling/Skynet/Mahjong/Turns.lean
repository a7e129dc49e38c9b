import Mathlib.Data.List.Basic
import Skynet.Mahjong.Errors

/-!
# Skynet.Mahjong.Turns

Who may act in a phase, and when the phase is over.

* `turn_authority` : a message of a player who does not have the turn, and who has no pending offer, changes nothing
  but its own offer, and an operation is carried out only if it was offered.
* `phase_timers` : the pending timer is that of the phase, as long as nobody discards in OPDRAWCARD.
-/

namespace Skynet
namespace Mahjong

variable {c : Config} {s t : State} {seat : Seat} {op : Op} {pool : List Nat}

/-! ### Authority -/

def Outcome.state : Outcome → State
  | .returned s => s
  | .raised s _ => s

theorem state_of_step {l : Label} (h : step c s l = some t) : ∃ r, handled c s l = some r ∧ r.state = t := by
  simp only [step] at h
  split at h
  · cases h
  · split at h
    · rename_i r hr
      cases h
      exact ⟨_, hr, rfl⟩
    · rename_i r e hr
      cases h
      exact ⟨_, hr, rfl⟩
    · cases h

/-- The sender is the current player, and discards a tile of its own hand. -/
def MayDiscard (c : Config) (s : State) (userId v : Int) : Prop :=
  (s.status = .outCard ∨ s.status = .opDrawCard) ∧ c.playerOf userId = some s.curSeat ∧
    ∃ card ∈ s.hand s.curSeat, (card : Int) = v

/-- The sender has a pending offer. -/
def MayAnswer (c : Config) (s : State) (userId : Int) : Prop :=
  (s.status = .opOutCard ∨ s.status = .opDrawCard ∨ s.status = .opBuGangCard) ∧
    ∃ seat o, c.playerOf userId = some seat ∧ s.offers = some o ∧ (o seat).pending = true

/-- What a message leaves as it is: the tiles, the turn and the offers of the others. -/
structure Untouched (c : Config) (s t : State) (userId : Int) : Prop where
  hand : t.hand = s.hand
  handle : t.handle = s.handle
  out : t.out = s.out
  pool : t.pool = s.pool
  status : t.status = s.status
  curSeat : t.curSeat = s.curSeat
  offers : ∀ i, c.playerOf userId ≠ some i → (t.offers.map fun o => o i) = s.offers.map fun o => o i

/-- A round that was stopped. -/
def Closed (s : State) : Prop := s.status = .none ∧ s.offers = none

theorem untouched_refl (c : Config) (s : State) (userId : Int) : Untouched c s s userId :=
  ⟨rfl, rfl, rfl, rfl, rfl, rfl, fun _ _ => rfl⟩

theorem outCard_untouched (c : Config) (s : State) (userId v : Int) :
    MayDiscard c s userId v ∨ Untouched c s (onClientCmdOutCard c s userId v).state userId := by
  unfold onClientCmdOutCard
  split
  · exact .inr (untouched_refl c s userId)
  · rename_i seat hu
    split
    · exact .inr (untouched_refl c s userId)
    · rename_i card hf
      split
      · exact .inr (untouched_refl c s userId)
      · rename_i hst
        split
        · exact .inr (untouched_refl c s userId)
        · rename_i hcur
          have hcur' : s.curSeat = seat := by simpa using hcur
          have hv : (card : Int) = v := by simpa using List.find?_some hf
          refine .inl ⟨?_, ?_, card, ?_, hv⟩
          · by_contra hno
            exact hst ⟨fun h => hno (.inl h), fun h => hno (.inr h)⟩
          · rw [hu, hcur']
          · rw [hcur']
            exact List.mem_of_find?_eq_some hf

/-- An answer of a player without a pending offer. -/
theorem answered_of_not_pending {o : Seat → Offer} {iOpValue iCardValue : Int}
    (hoff : Offered s.phaseOps o) (hp : (o seat).pending = false) :
    answered o seat iOpValue iCardValue = o := by
  have hzero : (o seat).iOpValue = 0 := by
    simp only [Offer.pending, hoff.selected seat, Option.isNone_none, Bool.and_true,
      decide_eq_false_iff_not] at hp
    omega
  have hnone : (o seat).select iOpValue iCardValue = none := by
    simp only [Offer.select, hzero, Nat.lt_irrefl, false_and, if_false]
  have hsame : ({ o seat with iOpValue := 0 } : Offer) = o seat := by rw [← hzero]
  simp only [answered, hnone]
  rw [hsame, Function.update_eq_self]

theorem takeOperation_untouched (hi : Inv s ∨ Closed s) (userId iOpValue iCardValue : Int) :
    MayAnswer c s userId ∨
      Untouched c s (onClientCmdTakeOpreation c s userId iOpValue iCardValue).state userId := by
  unfold onClientCmdTakeOpreation
  split
  · exact .inr (untouched_refl c s userId)
  · rename_i hst
    have hop : s.opStatus := by
      by_contra hno
      exact hst ⟨fun h => hno (.inl h), fun h => hno (.inr (.inl h)), fun h => hno (.inr (.inr h))⟩
    have hp : Playing s := by
      obtain hi | hcl := hi
      · exact hi.playing_of_op hop
      · obtain h | h | h := hop <;> rw [hcl.1] at h <;> cases h
    obtain ⟨o, ho, hoff, hany⟩ := hp.offers
    split
    · exact .inr (untouched_refl c s userId)
    · rename_i seat hu
      simp only [ho]
      cases hpend : (o seat).pending with
      | true => exact .inl ⟨hop, seat, o, hu, ho, hpend⟩
      | false =>
        right
        rw [answered_of_not_pending hoff hpend, if_pos (hoff.pending.mpr (hany hop))]
        exact ⟨rfl, rfl, rfl, rfl, rfl, rfl, fun i _ => by rw [ho]; rfl⟩

/-- A meld is made only by an operation that is carried out. -/
theorem handle_of_not_taking {l : Label} {r : Outcome} (hi : Inv s) (h : handled c s l = some r)
    (htake : taking c s l = none) : r.state.handle = s.handle := by
  have hstop : ∀ (u : State) (result : Nat), (onGameStopRound c u result).state.handle = u.handle := by
    intro u result
    unfold onGameStopRound
    simp only []
    split
    · rfl
    · split
      · rfl
      · rfl
  cases outcome_cases hi h with
  | stay hst =>
    cases hst with
    | aside => rfl
    | decline => rfl
    | deal hs hix =>
      rw [procNextProgress_deal (s := s.stopTimer .makeBanker) hix]
      rfl
    | begin hs hix =>
      rw [procNextProgress_begin (s := s.stopTimer .dealCards) hix]
      rfl
    | claim _ _ _ _ he _ =>
      subst he
      rfl
    | passDraw _ _ _ he =>
      subst he
      rfl
    | stale => rfl
    | peng _ _ _ _ _ ht => rw [htake] at ht; cases ht
    | buGang _ _ _ _ _ _ ht => rw [htake] at ht; cases ht
  | @turn u seat hturn =>
    have hu : u.handle = s.handle := by
      cases hturn with
      | first => rfl
      | discard _ _ _ _ he _ =>
        subst he
        rfl
      | passOut => rfl
      | passBuGang => rfl
      | gang _ _ _ _ _ ht => rw [htake] at ht; cases ht
      | buGang _ _ _ _ _ _ ht => rw [htake] at ht; cases ht
    have hready := ready_of_turn hi hturn
    obtain ⟨card, rest, hcard, he⟩ | ⟨hempty, he⟩ := drawCard_cases (c := c) hready.status hready.seat_mem
    · rw [he, ← hu]
      rfl
    · rw [he, hstop, hu]
  | win hwin =>
    cases hwin with
    | ziMo _ _ ht => rw [htake] at ht; cases ht
    | qiangGangHu _ _ _ _ _ ht => rw [htake] at ht; cases ht
  | anGang ht => rw [htake] at ht; cases ht
  | noReconnect => rfl

/-! ### Rounds that were stopped -/

theorem closed_of_stop {result : Nat} (h : onGameStopRound c s result = .returned t) : Closed t := by
  unfold onGameStopRound at h
  simp only [] at h
  split at h
  · cases h
  · split at h
    · cases h
      exact ⟨rfl, rfl⟩
    · cases h

theorem taking_of_closed {l : Label} (h : Closed s) : taking c s l = none := by
  cases l with
  | takeOperation => exact if_neg (by rw [h.1]; simp)
  | timer key dice =>
    simp only [taking, h.2, Option.bind_none, ite_self]
  | outCard => rfl
  | requestAI => rfl
  | reconnect => rfl

theorem closed_of_step {l : Label} (hi : Inv s) (hret : Returns c s l) (h : step c s l = some t)
    (hs : s.finished = false) (ht : t.finished = true) : Closed t := by
  simp only [step, hs, Bool.false_eq_true, if_false] at h
  split at h
  · rename_i r hr
    cases h
    generalize hout : Outcome.returned t = out at hr
    cases outcome_cases hi hr with
    | stay hst =>
      cases hout
      rw [(unsettled_of_stay hst).finished, hs] at ht
      cases ht
    | @turn u seat hturn =>
      have hready := ready_of_turn hi hturn
      obtain ⟨card, rest, hcard, he⟩ | ⟨hempty, he⟩ := drawCard_cases (c := c) hready.status hready.seat_mem
      · rw [he] at hout
        cases hout
        have hover : (drawn c { u with pool := rest } seat card).finished = u.finished := rfl
        rw [hover, (unsettled_of_turn hturn).finished, hs] at ht
        cases ht
      · rw [he] at hout
        exact closed_of_stop hout.symm
    | win => exact closed_of_stop hout.symm
    | anGang => cases hout
    | noReconnect => cases hout
  · rename_i r e hr
    exact absurd hr (hret r e)
  · cases h

theorem inv_or_closed {ls : List Label} (hi : Inv s) (hs : s.finished = false)
    (hrun : Lts.run (step c) s ls = some t) (hret : Lts.Guarded (step c) (Returns c) s ls) :
    t.finished = true ∧ Closed t ∨ t.finished = false ∧ Inv t := by
  refine Lts.run_invariant_of_guarded (P := fun s => s.finished = true ∧ Closed s ∨ s.finished = false ∧ Inv s) ?_ hrun hret
    (.inr ⟨hs, hi⟩)
  rintro s l t (⟨hover, -⟩ | ⟨hs, hi⟩) hret h
  · simp [step, hover] at h
  · cases hover : t.finished with
    | true => exact .inl ⟨rfl, closed_of_step hi hret h hs hover⟩
    | false => exact .inr ⟨rfl, inv_of_goes hi (goes_of_step hi hret h hover)⟩

/-- A message changes the tiles, the turn or the offer of another player only if its sender discards a tile of its own
hand in its turn, or has a pending offer. An operation is carried out only if it is offered in the phase. -/
theorem turn_authority (c : Config) (pool : List Nat) (hpool : pool.Perm mahjongPool) (money : Seat → Int)
    (ls : List Label) (t : State) (hrun : Lts.run (step c) (onGameStart c pool money) ls = some t)
    (hret : Lts.Guarded (step c) (Returns c) (onGameStart c pool money) ls) :
    (∀ userId v r, handled c t (.outCard userId v) = some r →
      MayDiscard c t userId v ∨ Untouched c t r.state userId) ∧
    (∀ userId iOpValue iCardValue r, handled c t (.takeOperation userId iOpValue iCardValue) = some r →
      MayAnswer c t userId ∨ Untouched c t r.state userId) ∧
    (∀ l seat op, taking c t l = some (seat, op) →
      (∃ o, t.offers = some o ∧ (o seat).pending = true ∧ op ∈ (o seat).iOpTable) ∧ op ∈ t.phaseOps seat) ∧
    (t.finished = false → ∀ l r, handled c t l = some r → taking c t l = none → r.state.handle = t.handle) := by
  have hinv := inv_or_closed (inv_onGameStart c hpool money) rfl hrun hret
  have hi : Inv t ∨ Closed t := by
    obtain ⟨-, h⟩ | ⟨-, h⟩ := hinv
    · exact .inr h
    · exact .inl h
  refine ⟨?_, ?_, ?_, ?_⟩
  · intro userId v r h
    cases h
    exact outCard_untouched c t userId v
  · intro userId iOpValue iCardValue r h
    cases h
    exact takeOperation_untouched hi userId iOpValue iCardValue
  · intro l seat op htake
    obtain hi | hcl := hi
    · obtain ⟨userId, o, -, -, hop, ho, hpos, hmem, hphase⟩ := taking_spec hi htake
      obtain ⟨o', ho', hoff, -⟩ := (hi.playing_of_op hop).offers
      rw [ho] at ho'
      cases ho'
      refine ⟨⟨o, ho, ?_, hmem⟩, hphase⟩
      simp only [Offer.pending, hoff.selected seat, Option.isNone_none, Bool.and_true, decide_eq_true_eq]
      exact hpos
    · exact absurd htake (by rw [taking_of_closed hcl]; intro h; cases h)
  · intro hover l r h htake
    obtain ⟨h', -⟩ | ⟨-, hi⟩ := hinv
    · rw [hover] at h'
      cases h'
    · exact handle_of_not_taking hi h htake

/-- The first player may claim the tile 3, and the third one has no offer. -/
def offerOfThree : List Label := opening ++ ([.outCard 101 0x07, .outCard 102 0x03] : List Label)

theorem turn_authority_offerOfThree : ∃ t, Lts.run (step room) (stackedStart [0x07, 0x03]) offerOfThree = some t ∧
    ⟨PENG, 3⟩ ∈ t.phaseOps 1 ∧
    ∀ r, handled room t (.takeOperation 103 0x08 0x03) = some r → Untouched room t r.state 103 := by
  have htest : Lts.check (step room) (returns room) (fun t =>
      decide (taking room t (.takeOperation 101 0x08 0x03) = some (1, ⟨PENG, 3⟩)) &&
      decide (room.playerOf 103 = some 3) && t.offers.all fun o => !(o 3).pending)
      (stackedStart [0x07, 0x03]) offerOfThree = true := by decide +kernel
  obtain ⟨t, hrun, hret, ht⟩ := Lts.of_check (fun _ _ => returns_of_test) htest
  simp only [Bool.and_eq_true, decide_eq_true_eq] at ht
  obtain ⟨⟨htake, hu⟩, hpend⟩ := ht
  have hauth := turn_authority room _ (stacked_perm (by decide)) _ _ t hrun hret
  refine ⟨t, hrun, (hauth.2.2.1 _ _ _ htake).2, fun r hr => ?_⟩
  refine (hauth.2.1 _ _ _ r hr).resolve_left ?_
  rintro ⟨-, seat, o, hseat, ho, hp⟩
  rw [hu] at hseat
  cases hseat
  rw [ho, Option.all_some, hp] at hpend
  cases hpend

/-! ### Timers -/

/-- The timer that guards the current phase. -/
def State.phaseTimer (s : State) : Timer :=
  match s.status with
  | .none => if s.progressIndex = 2 then .makeBanker else .dealCards
  | .drawCard => .drawCard
  | .outCard => .outCard
  | .opOutCard => .opOutCard
  | .opDrawCard => .opDarwCard
  | .opBuGangCard => .opBuGangCard

def Timed (s : State) : Prop := ∀ key, s.timers key ≠ none ↔ key = s.phaseTimer

/-- Nobody discards while an operation is offered to the current player. -/
def KeepsOffer (c : Config) (s : State) (l : Label) : Prop := s.status = .opDrawCard → discarding c s l = none

theorem timed_of_start {timers : Timer → Option Nat} (hidle : ∀ key, timers key = none)
    (h : ∃ time, s.timers = Function.update timers s.phaseTimer (some time)) : Timed s := by
  obtain ⟨time, h⟩ := h
  intro key
  rw [h, Function.update_apply]
  split
  · rename_i he
    exact ⟨fun _ => he, fun _ => nofun⟩
  · rename_i he
    exact ⟨fun hne => absurd (hidle key) hne, fun he' => absurd he' he⟩

theorem Timed.stop (h : Timed s) : ∀ key, Function.update s.timers s.phaseTimer none key = none := by
  intro key
  rw [Function.update_apply]
  split
  · rfl
  · rename_i hne
    by_contra hp
    exact hne ((h key).mp hp)

theorem Timed.opStopped (h : Timed s) (hop : s.opStatus) (key : Timer) : opStopped s.timers key = none := by
  by_contra hp
  have hkey : s.timers key ≠ none ∧ key ≠ .opOutCard ∧ key ≠ .opDarwCard ∧ key ≠ .opBuGangCard := by
    cases key with
    | opOutCard => exact absurd rfl hp
    | opDarwCard => exact absurd rfl hp
    | opBuGangCard => exact absurd rfl hp
    | makeBanker => exact ⟨hp, nofun, nofun, nofun⟩
    | dealCards => exact ⟨hp, nofun, nofun, nofun⟩
    | drawCard => exact ⟨hp, nofun, nofun, nofun⟩
    | outCard => exact ⟨hp, nofun, nofun, nofun⟩
  obtain ⟨hpend, h1, h2, h3⟩ := hkey
  have he := (h key).mp hpend
  obtain hs | hs | hs := hop
  · rw [State.phaseTimer, hs] at he
    exact h1 he
  · rw [State.phaseTimer, hs] at he
    exact h2 he
  · rw [State.phaseTimer, hs] at he
    exact h3 he

/-- A discard outside of OPDRAWCARD stops the timer of the phase. -/
theorem Timed.discard {l : Label} {card : Nat} (h : Timed s) (hkeep : KeepsOffer c s l) (hturn : s.turnStatus)
    (hdisc : discarding c s l = some card) : ∀ key, Function.update s.timers .outCard none key = none := by
  have hs : s.status = .outCard := by
    refine hturn.resolve_right fun hs => ?_
    rw [hkeep hs] at hdisc
    cases hdisc
  have hphase : s.phaseTimer = .outCard := by rw [State.phaseTimer, hs]
  rw [← hphase]
  exact h.stop

/-- When the next tile is drawn no timer is pending. -/
theorem idle_of_turn {l : Label} (h : Turn c s l t seat) (htimed : Timed s) (hkeep : KeepsOffer c s l) (key : Timer) :
    t.timers key = none := by
  cases h with
  | first hs hcur =>
    have hphase : s.phaseTimer = .drawCard := by rw [State.phaseTimer, hs]
    have hstop := htimed.stop key
    rw [hphase] at hstop
    exact hstop
  | discard hp hturn hdisc hcard he hop =>
    subst he
    exact htimed.discard hkeep hturn hdisc key
  | passOut hp hs => exact htimed.opStopped (.inl hs) key
  | passBuGang hp hs => exact htimed.opStopped (.inr (.inr hs)) key
  | gang hp hseat hs hne hcount htake he =>
    subst he
    exact htimed.opStopped (.inl hs) key
  | buGang hp hs hv hm he hpeng htake hu hop =>
    subst hu
    exact htimed.opStopped (.inr (.inl hs)) key

theorem timed_drawn {card : Nat} {rest : List Nat} (hidle : ∀ key, s.timers key = none) :
    Timed (drawn c { s with pool := rest } seat card) := by
  by_cases hops : 0 < opValue (drawOps s seat card)
  · have hstatus : (drawn c { s with pool := rest } seat card).status = .opDrawCard := if_pos hops
    have hphase : (drawn c { s with pool := rest } seat card).phaseTimer = .opDarwCard := by
      rw [State.phaseTimer, hstatus]
    refine timed_of_start hidle ?_
    rw [hphase]
    exact ⟨_, if_pos hops⟩
  · have hstatus : (drawn c { s with pool := rest } seat card).status = .outCard := if_neg hops
    have hphase : (drawn c { s with pool := rest } seat card).phaseTimer = .outCard := by
      rw [State.phaseTimer, hstatus]
    refine timed_of_start hidle ?_
    rw [hphase]
    exact ⟨_, if_neg hops⟩

theorem timed_of_goes {l : Label} (h : Goes c s l t) (htimed : Timed s) (hkeep : KeepsOffer c s l) :
    Timed t := by
  cases h with
  | draw hturn hpool => exact timed_drawn (idle_of_turn hturn htimed hkeep)
  | stay hst =>
    cases hst with
    | aside => exact htimed
    | decline => exact htimed
    | deal hs hix =>
      have hphase : s.phaseTimer = .makeBanker := by rw [State.phaseTimer, hs]; exact if_pos hix
      have hidle := htimed.stop
      rw [hphase] at hidle
      rw [procNextProgress_deal (s := s.stopTimer .makeBanker) hix]
      refine timed_of_start hidle ⟨2000, ?_⟩
      simp only [State.phaseTimer]
      rw [show (processDealCards (s.stopTimer .makeBanker) _).status = .none from hs]
      rfl
    | begin hs hix =>
      have hphase : s.phaseTimer = .dealCards := by
        rw [State.phaseTimer, hs]
        exact if_neg (by rw [hix]; decide)
      have hidle := htimed.stop
      rw [hphase] at hidle
      rw [procNextProgress_begin (s := s.stopTimer .dealCards) hix]
      exact timed_of_start hidle ⟨_, rfl⟩
    | claim hp hturn hdisc hcard he hop =>
      subst he
      exact timed_of_start (htimed.discard hkeep hturn hdisc) ⟨_, rfl⟩
    | passDraw hp hs hpass he =>
      subst he
      exact timed_of_start (htimed.opStopped (.inr (.inl hs))) ⟨_, rfl⟩
    | stale hp hs =>
      have hphase : s.phaseTimer = .outCard := by rw [State.phaseTimer, hs]
      intro key
      rw [show State.phaseTimer { s.clearUserOp with timers := Mahjong.opStopped s.timers } = .outCard from hphase]
      have hkey := htimed key
      rw [hphase] at hkey
      cases key with
      | opOutCard => exact ⟨fun h => absurd rfl h, nofun⟩
      | opDarwCard => exact ⟨fun h => absurd rfl h, nofun⟩
      | opBuGangCard => exact ⟨fun h => absurd rfl h, nofun⟩
      | makeBanker => exact hkey
      | dealCards => exact hkey
      | drawCard => exact hkey
      | outCard => exact hkey
    | peng hp hseat hs hne hcount htake he =>
      subst he
      exact timed_of_start (htimed.opStopped (.inl hs)) ⟨_, rfl⟩
    | buGang hp hs hv hm he hpeng htake hu hop =>
      subst hu
      exact timed_of_start (htimed.opStopped (.inr (.inl hs))) ⟨_, rfl⟩

/-- The pending timer is always that of the phase, when no handler raises an error and nobody discards in
OPDRAWCARD. -/
theorem phase_timers (c : Config) (pool : List Nat) (hpool : pool.Perm mahjongPool) (money : Seat → Int)
    (ls : List Label) (t : State) (hrun : Lts.run (step c) (onGameStart c pool money) ls = some t)
    (hg : Lts.Guarded (step c) (fun s l => Safe c s l ∧ KeepsOffer c s l) (onGameStart c pool money) ls)
    (hover : t.finished = false) : ∀ key, t.timers key ≠ none ↔ key = t.phaseTimer := by
  have htimed : Timed (onGameStart c pool money) := timed_of_start (fun _ => rfl) ⟨2000, rfl⟩
  have hinv := safe_invariant (P := Timed) hpool (fun s l t hi _ htimed hkeep hgo => timed_of_goes hgo htimed hkeep)
    (inv_onGameStart c hpool money) (counted_onGameStart c pool money) htimed hrun hg
  rw [hover] at hinv
  exact (hinv.resolve_left Bool.false_ne_true).2.2

theorem phase_timers_offerOfThree : ∃ t, Lts.run (step room) (stackedStart [0x07, 0x03]) offerOfThree = some t ∧
    t.status = .opOutCard ∧ ∀ key, t.timers key ≠ none ↔ key = .opOutCard := by
  have htest : Lts.check (step room) (fun s l => safe room s l && decide (s.status ≠ .opDrawCard))
      (fun t => !t.finished && decide (t.status = .opOutCard)) (stackedStart [0x07, 0x03]) offerOfThree = true := by
    decide +kernel
  obtain ⟨t, hrun, hg, ht⟩ := Lts.of_check (G := fun s l => Safe room s l ∧ KeepsOffer room s l) (fun s l h => by
    simp only [Bool.and_eq_true, decide_eq_true_eq] at h
    exact ⟨safe_of_test h.1, fun hs => absurd hs h.2⟩) htest
  simp only [Bool.and_eq_true, Bool.not_eq_true', decide_eq_true_eq] at ht
  have htimers := phase_timers room _ (stacked_perm (by decide)) _ _ t hrun hg ht.1
  rw [State.phaseTimer, ht.2] at htimers
  exact ⟨t, hrun, ht.2, htimers⟩

/-- A discard in OPDRAWCARD leaves the timer of the offer pending in the next phase. -/
theorem stale_timer : ¬ ∀ (c : Config) (pool : List Nat) (money : Seat → Int) (ls : List Label) (t : State),
    pool.Perm mahjongPool → Lts.run (step c) (onGameStart c pool money) ls = some t → t.finished = false →
    ∀ key, t.timers key ≠ none ↔ key = t.phaseTimer := by
  intro h
  have htest : Lts.check (step room) (fun _ _ => true)
      (fun t => !t.finished && decide (t.phaseTimer = .outCard) && (t.timers .opDarwCard).isSome)
      (stackedStart [0x05, 0x07]) (opening ++ [Label.outCard 101 0x05]) = true := by decide +kernel
  obtain ⟨t, hrun, -, ht⟩ := Lts.of_check (G := fun _ _ => True) (fun _ _ _ => trivial) htest
  simp only [Bool.and_eq_true, Bool.not_eq_true', decide_eq_true_eq] at ht
  obtain ⟨⟨hover, hphase⟩, hpend⟩ := ht
  have hkey := (h room _ _ _ t (stacked_perm (by decide)) hrun hover .opDarwCard).mp (by
    intro hnone
    rw [hnone] at hpend
    cases hpend)
  rw [hphase] at hkey
  cases hkey

end Mahjong
end Skynet
