import Adjudication.Proofs.FirstPhase

namespace Adjudication

/-- Payloads that agree in one phase have one draw, and agree in all. -/
theorem Devnet.payload_congr {height phase draw draw' : Nat}
    (h : payload height phase draw = payload height phase draw') (phase' : Nat) :
    payload height phase' draw = payload height phase' draw' := by
  have hdraw : toString draw = toString draw' := by simpa [payload] using h
  simp only [payload, hdraw]

namespace Station

variable {m : Moment} {s s' : Station} {id : Nat} {r : RoundRun}

/-- How the value of a finalized first phase, and the plans after it, stand to the attempts before it. -/
structure Echoes (height : Nat) (value : String) (before after : List Remark) (first last : Nat) :
    Prop where
  opens : (attempts height before).head? = some (Devnet.payload height 0 first)
  closes : (attempts height before).getLast? = some (Devnet.payload height 0 last)
  value : value = Devnet.payload height 0 first
  later : ∀ plan, .planned height plan ∈ after →
    plan.phase ≠ 0 ∧ plan.payload = Devnet.payload height plan.phase last

/-- All that holds of a driven node of the development network about its draws. -/
structure Drawing (s : Station) : Prop where
  orderly : s.Orderly
  past : s.Past
  ahead : ∀ height, s.position.height + 1 < height → s.agent.Untouched ⟨height, 0⟩
  opening : s.Opening
  last : ∀ payload, (attempts (s.position.height + 1) s.story).getLast? = some payload →
    payload = Devnet.payload (s.position.height + 1) 0 s.position.draw
  law : ∀ before height entries digest after value,
    s.story = before ++ .accepted (.finalized ⟨height, 0⟩ entries digest) :: after →
    (s.agent.address, value) ∈ entries → ∃ first last, Echoes height value before after first last ∧
      (height = s.position.height + 1 → last = s.position.draw)

theorem ahead_deal (h : s.Orderly)
    (ahead : ∀ height, s.position.height + 1 < height → s.agent.Untouched ⟨height, 0⟩)
    (deal : Deal m s s') (height : Nat) (hheight : s'.position.height + 1 < height) :
    s'.agent.Untouched ⟨height, 0⟩ := by
  have hle : s.position.height ≤ s'.position.height := by
    have hnext := h.nextKey_le deal
    simp only [Position.nextKey, RoundKey.lt_def] at hnext
    omega
  have hkey := ahead height (by omega)
  cases deal with
  | quiet story position rounds pauses untouched => exact untouched _ hkey
  | plan plan was planned story position rounds busy untouched => exact untouched _ hkey
  | accept id r outcome was ended story position rounds untouched => exact untouched _ hkey
  | turn id r turned driver story untouched =>
    refine untouched _ ?_ hkey
    intro heq
    have := congrArg RoundKey.height heq
    dsimp only at this
    omega

theorem Drawing.last_deal (d : s.Drawing) (deal : Deal m s s') (payload : String)
    (hlast : (attempts (s'.position.height + 1) s'.story).getLast? = some payload) :
    payload = Devnet.payload (s'.position.height + 1) 0 s'.position.draw := by
  cases deal with
  | quiet story position =>
    rw [story, position] at hlast
    rw [position]
    exact d.last payload hlast
  | plan plan was planned story position =>
    obtain ⟨hpayload, hlater⟩ := Devnet.plan_payload planned
    rw [← position] at hpayload hlater
    have hheight : s'.position.height = s.position.height := by
      rw [position]
      exact (Devnet.plan_keeps _ _).1
    rw [story, hheight, attempts_append] at hlast
    rw [hheight]
    by_cases hfirst : plan.phase = 0
    · rw [attempts_planned_first hfirst, List.getLast?_concat] at hlast
      cases hlast
      rw [hpayload, hfirst]
    · rw [attempts_planned_later hfirst, List.append_nil] at hlast
      rw [hlater hfirst]
      exact d.last payload hlast
  | accept id r outcome was ended story position =>
    rw [story, attempts_append, attempts_accepted, List.append_nil] at hlast
    rcases position with hsame | ⟨_, hbeyond, hraised⟩
    · rw [hsame] at hlast ⊢
      exact d.last payload hlast
    · rw [d.past.no_attempts (by rw [hraised]; simpa using hbeyond)] at hlast
      cases hlast
  | turn id r turned driver story =>
    have hturn := turned.turn
    obtain ⟨hheight, hdraw, _⟩ := hturn.position_keeps (d.orderly.fits id r turned.before)
    have hheight' : s'.position.height = s.position.height := hheight
    have hdraw' : s'.position.draw = s.position.draw := hdraw
    rw [story, hheight'] at hlast
    rw [hheight', hdraw']
    exact d.last payload hlast

/-- As the round of a first phase is accepted, the node's value in it is that of the first attempt. -/
theorem Drawing.echoes_of_accept (d : s.Drawing) {height : Nat} {entries : List (Address × String)}
    {digest value : String} (was : s.agent.round? id = some r)
    (ended : r.outcome? = some (.finalized ⟨height, 0⟩ entries digest))
    (hown : (s.agent.address, value) ∈ entries) : height = s.position.height + 1 ∧
      ∃ first, Echoes height value s.story [] first s.position.draw := by
  have hkey : ⟨height, 0⟩ = s.position.activeKey := (d.orderly.outcome_key was ended).1
  have hheight : height = s.position.height + 1 := congrArg RoundKey.height hkey
  have hphase : 0 = s.position.phase := congrArg RoundKey.phase hkey
  refine ⟨hheight, ?_⟩
  subst height
  cases d.opening with
  | untried none_tried stands idle => cases (idle id).symm.trans was
  | tried draw first stands busy scheduled =>
    simp [RoundRun.outcome?, (scheduled id r was).1] at ended
  | contributed draw e first phase held hvalue stand =>
    have hstands : r.Stands entries := Or.inr ⟨_, digest, RoundRun.closed_of_outcome? ended⟩
    have hvalue' := (stand id r entries value was hstands hown).trans hvalue
    obtain ⟨last, hlast⟩ : ∃ last, (attempts (s.position.height + 1) s.story).getLast? = some last := by
      cases hnil : attempts (s.position.height + 1) s.story with
      | nil =>
        rw [hnil] at first
        cases first
      | cons payload rest => exact ⟨_, List.getLast?_cons⟩
    rw [d.last last hlast] at hlast
    exact ⟨draw, first, hlast, hvalue', fun plan hmem => absurd hmem List.not_mem_nil⟩
  | passed phase => omega

theorem Echoes.snoc {height : Nat} {value : String} {before after : List Remark} {first last : Nat}
    (h : Echoes height value before after first last) {remark : Remark}
    (hremark : ∀ plan, remark = .planned height plan →
      plan.phase ≠ 0 ∧ plan.payload = Devnet.payload height plan.phase last) :
    Echoes height value before (after ++ [remark]) first last := by
  refine ⟨h.opens, h.closes, h.value, fun plan hmem => ?_⟩
  rw [List.mem_append, List.mem_singleton] at hmem
  rcases hmem with hold | hnew
  · exact h.later plan hold
  · exact hremark plan hnew.symm

/-- What the law says of a split goes on to hold as the draw stays or the height rises. -/
theorem Drawing.law_of_split (d : s.Drawing) {before after : List Remark} {height : Nat}
    {entries : List (Address × String)} {digest value : String}
    (hsplit : s.story = before ++ .accepted (.finalized ⟨height, 0⟩ entries digest) :: after)
    (hown : (s.agent.address, value) ∈ entries) {p : Position}
    (hmoves : (p.height = s.position.height ∧ p.draw = s.position.draw) ∨
      s.position.height < p.height) :
    ∃ first last, Echoes height value before after first last ∧
      (height = p.height + 1 → last = p.draw) := by
  obtain ⟨first, last, echoes, hlast⟩ := d.law before height entries digest after value hsplit hown
  refine ⟨first, last, echoes, fun hheight => ?_⟩
  rcases hmoves with ⟨hsame, hdraw⟩ | hhigher
  · rw [hdraw]
    exact hlast (hsame ▸ hheight)
  · have hmem : Remark.accepted (.finalized ⟨height, 0⟩ entries digest) ∈ s.story := by
      rw [hsplit]
      exact List.mem_append_right _ List.mem_cons_self
    have hpast := d.past.finalized _ entries digest hmem
    simp only [Position.nextKey, RoundKey.lt_def] at hpast
    omega

/-- Once its first phase is finalized, a height has no other plan for it. -/
theorem Drawing.plan_of_finalized (d : s.Drawing) {plan : PhasePlan}
    {entries : List (Address × String)} {digest : String}
    (hmem : .accepted (.finalized ⟨s.position.height + 1, 0⟩ entries digest) ∈ s.story)
    (planned : (Devnet.plan s.position s.agent.appState).1 = some plan) :
    plan.phase ≠ 0 ∧ (Devnet.plan s.position s.agent.appState).2.1 = s.position ∧
      plan.payload = Devnet.payload (s.position.height + 1) plan.phase s.position.draw := by
  have hpast := d.past.finalized _ entries digest hmem
  obtain ⟨hpayload, hlater⟩ := Devnet.plan_payload planned
  have hphase : plan.phase ≠ 0 := by
    rw [Devnet.plan_phase planned]
    simp only [Position.nextKey, RoundKey.lt_def] at hpast
    omega
  rw [hlater hphase] at hpayload
  exact ⟨hphase, hlater hphase, hpayload⟩

theorem Drawing.law_deal (d : s.Drawing) (haddress : s'.agent.address = s.agent.address)
    (deal : Deal m s s') (before : List Remark) (height : Nat) (entries : List (Address × String))
    (digest : String) (after : List Remark) (value : String)
    (hsplit : s'.story = before ++ .accepted (.finalized ⟨height, 0⟩ entries digest) :: after)
    (hown : (s'.agent.address, value) ∈ entries) :
    ∃ first last, Echoes height value before after first last ∧
      (height = s'.position.height + 1 → last = s'.position.draw) := by
  rw [haddress] at hown
  cases deal with
  | quiet story position =>
    exact d.law_of_split (story ▸ hsplit) hown (Or.inl (by rw [position]; exact ⟨rfl, rfl⟩))
  | turn id r turned driver story =>
    have hturn := turned.turn
    obtain ⟨hheight, hdraw, _⟩ := hturn.position_keeps (d.orderly.fits id r turned.before)
    exact d.law_of_split (story ▸ hsplit) hown (Or.inl ⟨hheight, hdraw⟩)
  | plan plan was planned story position =>
    rw [story] at hsplit
    rcases split_snoc hsplit with ⟨_, hnew, _⟩ | ⟨after', rfl, hold⟩
    · cases hnew
    · obtain ⟨first, last, echoes, hlast⟩ := d.law before height entries digest after' value hold hown
      have hheight : s'.position.height = s.position.height := by
        rw [position]
        exact (Devnet.plan_keeps _ _).1
      have hlater : height = s.position.height + 1 → plan.phase ≠ 0 ∧ s'.position = s.position ∧
          plan.payload = Devnet.payload height plan.phase last := by
        rintro rfl
        have hmem : Remark.accepted (.finalized ⟨s.position.height + 1, 0⟩ entries digest) ∈ s.story := by
          rw [hold]
          exact List.mem_append_right _ List.mem_cons_self
        rw [hlast rfl, position]
        exact d.plan_of_finalized hmem planned
      refine ⟨first, last, echoes.snoc fun plan' hplan => ?_, fun hcurrent => ?_⟩
      · cases hplan
        obtain ⟨hphase, _, hpayload⟩ := hlater rfl
        exact ⟨hphase, hpayload⟩
      · rw [hheight] at hcurrent
        rw [(hlater hcurrent).2.1]
        exact hlast hcurrent
  | accept id r outcome was ended story position =>
    have hmoves : (s'.position.height = s.position.height ∧ s'.position.draw = s.position.draw) ∨
        s.position.height < s'.position.height := by
      rcases position with hsame | ⟨_, hhigher, hraised⟩
      · rw [hsame]
        exact Or.inl ⟨rfl, rfl⟩
      · rw [hraised]
        exact Or.inr hhigher
    rw [story] at hsplit
    rcases split_snoc hsplit with ⟨rfl, hnew, rfl⟩ | ⟨after', rfl, hold⟩
    · cases hnew
      obtain ⟨hheight, first, echoes⟩ := d.echoes_of_accept was ended hown
      refine ⟨first, _, echoes, fun hcurrent => ?_⟩
      rcases hmoves with ⟨_, hdraw⟩ | hhigher
      · exact hdraw.symm
      · omega
    · obtain ⟨first, last, echoes, hlast⟩ := d.law_of_split hold hown hmoves
      exact ⟨first, last, echoes.snoc fun _ hplan => (nomatch hplan), hlast⟩

theorem Drawing.act (d : s.Drawing) (m : Moment) (deed : Deed) : (s.act m deed).Drawing where
  orderly := d.orderly.act m deed
  past := d.past.deal d.orderly (d.orderly.deal m deed)
  ahead := ahead_deal d.orderly d.ahead (d.orderly.deal m deed)
  opening := d.opening.deal d.orderly d.past (keeps_act s m deed) d.ahead (d.orderly.deal m deed)
  last := d.last_deal (d.orderly.deal m deed)
  law := d.law_deal (address_act s m deed) (d.orderly.deal m deed)

theorem Fresh.untouched (h : s.Fresh) (k : RoundKey) : s.agent.Untouched k where
  lacks e held := by
    rw [h.blank.caches] at held
    obtain ⟨_, hmem, _⟩ := held
    cases hmem
  avoids id f hf := by
    rw [Exchanger.fill?, h.fills] at hf
    cases hf

theorem Fresh.drawing (h : s.Fresh) : s.Drawing where
  orderly := h.orderly
  past := by
    refine ⟨fun height plan hmem => ?_, fun key entries digest hmem => ?_⟩
    · rw [h.story] at hmem
      cases hmem
    · rw [h.story] at hmem
      cases hmem
  ahead height _ := h.untouched ⟨height, 0⟩
  opening := by
    obtain ⟨height, hposition⟩ := h.position
    refine .untried ?_ (by rw [hposition]; rfl) (fun id => ?_) (h.untouched _)
    · rw [h.story]
      rfl
    · rw [Agent.round?, h.blank.rounds]
      rfl
  last payload hlast := by
    rw [h.story] at hlast
    cases hlast
  law before height entries digest after value hsplit := by
    rw [h.story] at hsplit
    simp at hsplit

theorem Fresh.drawing_run (h : s.Fresh) (deeds : List (Moment × Deed)) : (s.run deeds).Drawing := by
  induction deeds using List.reverseRecOn with
  | nil => exact h.drawing
  | append_singleton deeds deed ih =>
    rw [run_snoc]
    exact ih.act deed.1 deed.2

/-- In a finalized first phase of a height a node has the draw of its first attempt at the phase, and the
later phases of the height repeat the draw of its last attempt. -/
theorem echoes_of_finalized (h : s.Fresh) {deeds : List (Moment × Deed)} {before after : List Remark}
    {height : Nat} {entries : List (Address × String)} {digest value : String}
    (hstory : (s.run deeds).story =
      before ++ .accepted (.finalized ⟨height, 0⟩ entries digest) :: after)
    (hown : ((s.run deeds).agent.address, value) ∈ entries) :
    ∃ first last, Echoes height value before after first last := by
  obtain ⟨first, last, echoes, _⟩ := (h.drawing_run deeds).law before height entries digest after value
    hstory hown
  exact ⟨first, last, echoes⟩

/-- Whatever draw the node has in a finalized first phase, the later phases of the height repeat. -/
def KeepsDraw (own : Address) (story : List Remark) : Prop :=
  ∀ before height entries digest after draw,
    story = before ++ .accepted (.finalized ⟨height, 0⟩ entries digest) :: after →
    (own, Devnet.payload height 0 draw) ∈ entries → ∀ plan, .planned height plan ∈ after →
      plan.phase = 1 ∨ plan.phase = 2 → plan.payload = Devnet.payload height plan.phase draw

/-- The draw is kept if every first phase was finalized with the first attempt. -/
theorem Fresh.keepsDraw_of_single (h : s.Fresh) (deeds : List (Moment × Deed))
    (single : ∀ before height entries digest after,
      (s.run deeds).story = before ++ .accepted (.finalized ⟨height, 0⟩ entries digest) :: after →
      (attempts height before).length = 1) :
    KeepsDraw (s.run deeds).agent.address (s.run deeds).story := by
  intro before height entries digest after draw hstory hown plan hmem _
  obtain ⟨first, last, echoes, _⟩ :=
    (h.drawing_run deeds).law before height entries digest after _ hstory hown
  obtain ⟨payload, honly⟩ := List.length_eq_one_iff.mp (single _ _ _ _ _ hstory)
  have hfirst := echoes.opens
  have hlast := echoes.closes
  rw [honly] at hfirst hlast
  have hdraw : Devnet.payload height 0 draw = Devnet.payload height 0 last :=
    echoes.value.trans (Option.some.inj (hfirst.symm.trans hlast))
  rw [(echoes.later plan hmem).2, Devnet.payload_congr hdraw]

end Station

namespace Redraw

def alone : Station := ⟨.plain "a", ⟨Devnet.application "a", false, .starting, 0, 0, []⟩, []⟩

def moment (now : Nat) (members : List Address) : Moment := ⟨now, now, .ofList members, 0⟩

def turn (now : Nat) (members : List Address) (task : Task) : Moment × Deed :=
  (moment now members, .apart (.task task) trivial)

def deeds : List (Moment × Deed) := [
  (moment 0 ["a", "b"], .drive), turn 0 ["a", "b"] (.round 0),
  turn 30000 ["a", "b"] (.round 0), turn 30000 ["a", "b"] (.fill 0), turn 30000 ["a", "b"] (.round 0),
  (moment 30000 ["a", "b"], .drive), (moment 30500 ["a"], .drive),
  turn 30500 ["a"] (.round 1), turn 30500 ["a"] (.fill 1),
  turn 30500 ["a"] (.round 1), turn 30500 ["a"] (.fill 2), turn 30500 ["a"] (.round 1),
  (moment 30500 ["a"], .drive), (moment 30500 ["a"], .drive)]

def firstDraw : Nat := 10905525725756348110

def secondDraw : Nat := 13819372491320860226

def digest : String := "b9331bd5e9085f3f1fa97dfad9d74d865d3783f2b56b94bb3e968e788eb56bd2"

def planOf (phase : Nat) (kind : RoundKind) (draw : Nat) : PhasePlan :=
  ⟨phase, kind, Devnet.payload 1 phase draw, Limits.finalizeTimeout⟩

def before : List Remark := [
  .planned 1 (planOf 0 .initial firstDraw),
  .accepted (.failed ⟨1, 0⟩ (.insufficientContributions 1 2)),
  .planned 1 (planOf 0 .initial secondDraw)]

theorem alone_fresh : alone.Fresh :=
  ⟨Agent.plain_blank "a", rfl, rfl, ⟨0, rfl⟩, rfl, rfl, rfl⟩

theorem alone_address : (alone.run deeds).agent.address = "a" := by decide +kernel

theorem alone_story : (alone.run deeds).story = before ++
    .accepted (.finalized ⟨1, 0⟩ [("a", Devnet.payload 1 0 firstDraw)] digest) ::
      [.planned 1 (planOf 1 .middle secondDraw)] := by
  decide +kernel

/-- After a failed attempt the second phase confirms another draw than the first has finalized. -/
theorem redraw_not_kept : alone.Fresh ∧
    ¬ Station.KeepsDraw (alone.run deeds).agent.address (alone.run deeds).story := by
  refine ⟨alone_fresh, fun kept => ?_⟩
  have hpayload := kept before 1 _ digest _ firstDraw alone_story
    (by rw [alone_address]; exact List.mem_singleton_self _) _ (List.mem_singleton_self _) (Or.inl rfl)
  have hdiffer : Devnet.payload 1 1 secondDraw ≠ Devnet.payload 1 1 firstDraw := by decide
  exact hdiffer hpayload

theorem redraw_echoes : alone.Fresh ∧ ∃ first last, Station.Echoes 1 (Devnet.payload 1 0 firstDraw)
    before [.planned 1 (planOf 1 .middle secondDraw)] first last := by
  refine ⟨alone_fresh, Station.echoes_of_finalized alone_fresh alone_story ?_⟩
  rw [alone_address]
  exact List.mem_singleton_self _

end Redraw

end Adjudication
