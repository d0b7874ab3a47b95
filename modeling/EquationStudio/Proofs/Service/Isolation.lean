import EquationStudio.Proofs.Service.Exchange

/-!
# Sessions do not disturb each other

A session that has been opened is followed through a run of requests, addressed to it and to others
(`Service.Followed`). As long as it is open its tutor is the one that the requests addressed to it
make of a new tutor, had nothing ever been collected from it (`Service.undisturbed`), but for what
has been told already; and it stays open until it is closed or pushed out. This is kept by each
request, to the session (`Service.Followed.step_own`) or not (`Service.Followed.step_other`), and so
by every run (`Service.followed`). `Service.run_isolated` compares a run with the one that holds
only what concerns one of its sessions.
-/

namespace EquationStudio

/-! ## What sessions tell -/

namespace Session

/-- The notices among events, as an answer shows them. -/
def shown (events : List Event) : List Datum := (events.filterMap Event.notice?).map shownNotice

/-- Further events show further notices. -/
theorem shown_append (es fs : List Event) : shown (es ++ fs) = shown es ++ shown fs := by
  rw [shown, List.filterMap_append, List.map_append]
  rfl

/-- An answer tells the notices that the tutor has made known. -/
theorem tell_messages (s : Session) (hint : Option Hint) :
    (Response.ok (s.tell hint).1).messages = shown s.tutor.events := by
  show (Notifier.recording.handle s.tutor.events).kept.map shownNotice = _
  rw [Notifier.kept_recording]
  rfl

end Session

namespace Service

variable {s : Service} {id : String} {l : Lesson} {rs : List Request} {q : Request}

/-- An open session answers what its tutor is asked, and everything is collected from the tutor. -/
theorem ask_eq (s : Service) {f : Tutor → Except Fault (Option Hint) × Tutor} {t t' : Tutor}
    {hint : Option Hint} (hfind : s.sessions.find? id = some ⟨id, t⟩) (hf : f t = (.ok hint, t')) :
    (s.ask id f).1.messages = Session.shown t'.events ∧
      (s.ask id f).2.2.sessions = s.sessions.update ⟨id, t'.collect.2⟩ := by
  unfold ask
  rw [hfind]
  dsimp only
  rw [hf]
  exact ⟨Session.tell_messages _ _, rfl⟩

/-- What is answered to a request addressed to a session depends on that session only. -/
theorem handle_congr {s' : Service} (hq : q.session? = some id)
    (hfind : s.sessions.find? id = s'.sessions.find? id) : (s.handle q).1 = (s'.handle q).1 := by
  cases Request.errand hq with
  | refused handled => rw [handled, handled]
  | ask handled =>
    rw [handled, handled, ask, ask, hfind]
    cases s'.sessions.find? id with
    | none => rfl
    | some session =>
      dsimp only
      split <;> rfl
  | close closes =>
    rw [Request.handle_of_call closes, Request.handle_of_call closes, answer, answer, hfind]
    cases s'.sessions.find? id <;> rfl

/-- A request that comes too late for a session tells nothing. -/
theorem handle_messages_of_none (hq : q.session? = some id) (hnone : s.sessions.find? id = none) :
    (s.handle q).1.messages = [] := by
  cases Request.errand hq with
  | refused handled silent =>
    rw [handled]
    exact silent
  | ask handled =>
    rw [handled, ask, hnone]
    rfl
  | close closes =>
    rw [Request.handle_of_call closes, answer, hnone]
    rfl

/-! ## Following a session -/

/-- The tutor that the requests reaching a session make of a new one, if nothing is ever collected
from it. -/
def undisturbed (s : Service) (id : String) (l : Lesson) (rs : List Request) : Tutor :=
  Tutor.run (.load l :: (s.served id rs).filterMap Request.op?)

/-- Requests that do not reach the session leave its tutor alone. -/
theorem undisturbed_missed (h : Exchange.reaches id ⟨s.after rs, q⟩ = false) :
    s.undisturbed id l (rs ++ [q]) = s.undisturbed id l rs := by
  rw [undisturbed, served_concat, h]
  simp [undisturbed]

/-- A request that reaches the session comes to an operation of its tutor, or to none. -/
theorem undisturbed_reached (h : Exchange.reaches id ⟨s.after rs, q⟩ = true) :
    s.undisturbed id l (rs ++ [q]) =
      q.op?.elim (s.undisturbed id l rs) (s.undisturbed id l rs).apply := by
  rw [undisturbed, served_concat, if_pos h, List.filterMap_append, ← List.cons_append, Tutor.run,
    List.foldl_append]
  cases hop : q.op? <;> simp [hop, undisturbed, Tutor.run]

/-- How a session stands after some requests. -/
inductive Standing (s : Service) (id : String) (l : Lesson) (rs : List Request) : Prop
  /-- It is open, with its own tutor, and has not been closed. -/
  | open (holds : (s.after rs).sessions.Holds id (s.undisturbed id l rs).collect.2
      (s.created rs).length)
      (teaches : (s.undisturbed id l rs).Teaches l)
      (served : s.served id rs = rs.filter (·.session? = some id)) (stays : ∀ q ∈ rs, ¬ q.Closes id)
  /-- It has been closed, or pushed out. -/
  | gone (absent : (s.after rs).sessions.find? id = none)
      (quiet : (s.undisturbed id l rs).autoPlay = none)
      (cause : (∃ q ∈ rs, q.Closes id) ∨ s.sessions.capacity ≤ (s.created rs).length)

/-- How a session stands, and that its answers have told what its tutor has made known. -/
structure Followed (s : Service) (id : String) (l : Lesson) (rs : List Request) : Prop where
  standing : s.Standing id l rs
  told : Session.shown (s.undisturbed id l rs).events =
    Session.shown (s.undisturbed id l []).events ++ s.told id rs

/-- A session that is not open stays so: nothing reaches its tutor any more. -/
theorem Standing.gone_concat (hreaches : Exchange.reaches id ⟨s.after rs, q⟩ = false)
    (habsent : (s.after (rs ++ [q])).sessions.find? id = none)
    (hquiet : (s.undisturbed id l rs).autoPlay = none)
    (hcause : (∃ q ∈ rs, q.Closes id) ∨ s.sessions.capacity ≤ (s.created (rs ++ [q])).length) :
    s.Standing id l (rs ++ [q]) := by
  refine .gone habsent (by rwa [undisturbed_missed hreaches]) (hcause.imp_left ?_)
  rintro ⟨q, hq, hcloses⟩
  exact ⟨q, List.mem_append_left _ hq, hcloses⟩

namespace Followed

/-- A request addressed to the session tells what it makes the session's tutor make known. -/
theorem told_own (h : s.Followed id l rs) (hq : q.session? = some id) (events : List Event)
    (hevents : (s.undisturbed id l (rs ++ [q])).events = (s.undisturbed id l rs).events ++ events)
    (hmessages : ((s.after rs).handle q).1.messages = Session.shown events) :
    Session.shown (s.undisturbed id l (rs ++ [q])).events =
      Session.shown (s.undisturbed id l []).events ++ s.told id (rs ++ [q]) := by
  have hconcerns : Exchange.concerns id ⟨s.after rs, q⟩ = true := decide_eq_true hq
  rw [hevents, Session.shown_append, h.told, told_concat, if_pos hconcerns,
    Exchange.response, hmessages, List.append_assoc]

/-- A request that is addressed to another session, or to none. -/
theorem step_other (h : s.Followed id l rs)
    (hcapacity : (s.after rs).sessions.capacity = s.sessions.capacity)
    (hcreated : id ∉ Exchange.created ⟨s.after rs, q⟩) (hq : q.session? ≠ some id) :
    s.Followed id l (rs ++ [q]) := by
  have hconcerns : Exchange.concerns id ⟨s.after rs, q⟩ = false := decide_eq_false hq
  have hreaches : Exchange.reaches id ⟨s.after rs, q⟩ = false := by
    rw [Exchange.reaches, hconcerns]; rfl
  have hsame : s.undisturbed id l (rs ++ [q]) = s.undisturbed id l rs := undisturbed_missed hreaches
  have hmoves := Exchange.moves ⟨s.after rs, q⟩
  have hlength : (s.created (rs ++ [q])).length =
      (s.created rs).length + (Exchange.created ⟨s.after rs, q⟩).length := by
    rw [created_concat, List.length_append]
  refine ⟨?_, by rw [hsame, told_concat, hconcerns, h.told]; simp⟩
  cases h.standing with
  | «open» holds teaches served stays =>
    rcases hmoves.holds hcreated hq holds with hholds | ⟨habsent, hfull⟩
    · have hcloses : ¬ q.Closes id := fun hcloses => hq (Request.session?_of_closes hcloses)
      refine .open (by rwa [after_concat, hsame, hlength]) (by rwa [hsame]) ?_
        (List.forall_mem_append.2 ⟨stays, List.forall_mem_singleton.2 hcloses⟩)
      rw [served_concat, hreaches, served, List.filter_append]
      simp [hq]
    · refine .gone_concat hreaches (by rwa [after_concat]) teaches.quiet (.inr ?_)
      rwa [hlength, ← hcapacity]
  | gone absent quiet cause =>
    refine .gone_concat hreaches ?_ quiet (cause.imp_right fun h => ?_)
    · rw [after_concat]
      exact hmoves.find?_eq_none hcreated absent
    · exact hlength ▸ Nat.le_add_right_of_le h

/-- A request that comes too late. -/
theorem step_late (h : s.Followed id l rs) (hq : q.session? = some id)
    (absent : (s.after rs).sessions.find? id = none)
    (quiet : (s.undisturbed id l rs).autoPlay = none)
    (cause : (∃ q ∈ rs, q.Closes id) ∨ s.sessions.capacity ≤ (s.created rs).length) :
    s.Followed id l (rs ++ [q]) := by
  have hcreated : Exchange.created ⟨s.after rs, q⟩ = [] := Exchange.created_of_session? hq
  have hreaches : Exchange.reaches id ⟨s.after rs, q⟩ = false := by
    rw [Exchange.reaches, absent, Option.isSome_none, Bool.and_false]
  refine ⟨.gone_concat hreaches ?_ quiet (cause.imp_right fun h => ?_), h.told_own hq [] ?_
    (handle_messages_of_none hq absent)⟩
  · rw [after_concat]
    exact (Exchange.moves ⟨s.after rs, q⟩).find?_eq_none (hcreated ▸ List.not_mem_nil) absent
  · rwa [created_concat, hcreated, List.append_nil]
  · rw [undisturbed_missed hreaches, List.append_nil]

/-- A request that closes the session. -/
theorem step_close (h : s.Followed id l rs) {t : Tutor}
    (hfind : (s.after rs).sessions.find? id = some ⟨id, t⟩)
    (hquiet : (s.undisturbed id l rs).autoPlay = none) (closes : q.Closes id) :
    s.Followed id l (rs ++ [q]) := by
  have hq := Request.session?_of_closes closes
  have hreaches : Exchange.reaches id ⟨s.after rs, q⟩ = true := by
    simp [Exchange.reaches, Exchange.concerns, hq, hfind]
  have hhandle := Request.handle_of_call closes (s.after rs)
  have hanswer : ((s.after rs).answer (.close id)).1.messages = [] ∧
      ((s.after rs).answer (.close id)).2.2.sessions = (s.after rs).sessions.erase id := by
    rw [answer, hfind]
    exact ⟨rfl, rfl⟩
  have hop : q.op? = some .destroy := by
    rw [Request.op?, show q.call = .ok (.close id) from closes]
    rfl
  have hreached := undisturbed_reached (l := l) hreaches
  rw [hop] at hreached
  obtain ⟨hevents, hdismissed⟩ := Tutor.destroy_quiet hquiet
  refine ⟨.gone ?_ (hreached ▸ hdismissed) (.inl ⟨q, by simp, closes⟩), h.told_own hq [] ?_ ?_⟩
  · rw [after_concat, Exchange.next, hhandle, hanswer.2]
    exact Sessions.find?_erase_self _ _
  · rw [hreached, List.append_nil]
    exact hevents
  · rw [hhandle]
    exact hanswer.1

/-- A request that is addressed to the session. -/
theorem step_own (h : s.Followed id l rs) (hl : l ∈ Catalog.lessons) (hq : q.session? = some id) :
    s.Followed id l (rs ++ [q]) := by
  cases h.standing with
  | gone absent quiet cause => exact h.step_late hq absent quiet cause
  | «open» holds teaches served stays =>
    have hfind := holds.find?
    have hreaches : Exchange.reaches id ⟨s.after rs, q⟩ = true := by
      simp [Exchange.reaches, Exchange.concerns, hq, hfind]
    have hnone : Exchange.created ⟨s.after rs, q⟩ = [] := Exchange.created_of_session? hq
    have hcreated : s.created (rs ++ [q]) = s.created rs := by
      rw [created_concat, hnone, List.append_nil]
    have hserved : s.served id (rs ++ [q]) = (rs ++ [q]).filter (·.session? = some id) := by
      rw [served_concat, if_pos hreaches, served, List.filter_append]
      simp [hq]
    have hstays : ¬ q.Closes id → ∀ q' ∈ rs ++ [q], ¬ q'.Closes id := fun h =>
      List.forall_mem_append.2 ⟨stays, List.forall_mem_singleton.2 h⟩
    have hreached := undisturbed_reached (l := l) hreaches
    cases Request.errand hq with
    | refused handled silent idle unclosed =>
      rw [idle] at hreached
      refine ⟨.open ?_ (hreached ▸ teaches) hserved (hstays unclosed), h.told_own hq [] ?_ ?_⟩
      · rw [after_concat, Exchange.next, handled, hreached, hcreated]
        exact holds
      · rw [hreached]
        exact (List.append_nil _).symm
      · rw [handled]
        exact silent
    | ask handled serves unclosed =>
      obtain ⟨hteaches, hint, events, hf, hevents⟩ := serves.collected hl teaches hreached
      obtain ⟨hmessages, hsessions⟩ := (s.after rs).ask_eq hfind hf
      refine ⟨.open ?_ hteaches hserved (hstays unclosed), h.told_own hq events hevents ?_⟩
      · rw [after_concat, Exchange.next, handled, hsessions, hcreated]
        exact holds.update_self _
      · rw [handled]
        exact hmessages
    | close closes => exact h.step_close hfind teaches.quiet closes

end Followed

/-! ## A session from its opening on -/

/-- A request that opens a session is answered as one that starts the lesson, under an identifier
that has been drawn. -/
theorem handle_of_opened? {r : Request} (h : Exchange.opened? ⟨s, r⟩ = some (id, l)) :
    l ∈ Catalog.lessons ∧ id = (s.supply.draw 32).1 ∧ s.handle r = s.start l := by
  unfold Exchange.opened? at h
  split at h
  · next lesson hcall =>
    obtain ⟨l', hl', heq⟩ := Option.map_eq_some_iff.1 h
    obtain ⟨rfl, rfl⟩ := Prod.mk.inj heq
    refine ⟨List.mem_of_find?_eq_some hl', rfl, ?_⟩
    rw [Request.handle_of_call hcall, answer, hl']
  · cases h

/-- Where one session may be open, a session can be started. -/
theorem start_eq (hbounded : s.sessions.Bounded) (l : Lesson) : ∃ journal ss,
    s.sessions.insert ⟨(s.supply.draw 32).1, (Tutor.load {} l).collect.2⟩ = some (journal, ss) ∧
      (s.start l).2.2.sessions = ss ∧
      (s.start l).1 = .ok ((Session.start (s.supply.draw 32).1 l).tell none).1 := by
  rcases s.start_cases l with ⟨hnone, -⟩ | hstart
  · exact absurd hnone (Option.ne_none_iff_isSome.2 (hbounded.insert_isSome _))
  · exact hstart

/-- How a session stands when it has been opened. -/
theorem followed_nil {r : Request} (hbounded : s.sessions.Bounded)
    (habsent : s.sessions.find? id = none) (h : Exchange.opened? ⟨s, r⟩ = some (id, l)) :
    (s.after [r]).Followed id l [] := by
  obtain ⟨-, rfl, hhandle⟩ := handle_of_opened? h
  obtain ⟨journal, ss, hinsert, hsessions, -⟩ := start_eq hbounded l
  refine ⟨.open ?_ (Tutor.Teaches.load l) rfl nofun, (List.append_nil _).symm⟩
  show (s.handle r).2.2.sessions.Holds _ _ _
  rw [hhandle, hsessions]
  exact Sessions.holds_insert habsent hinsert

/-- How a session stands after some requests, if its identifier is not given to another one. -/
theorem followed {r : Request} (hbounded : s.sessions.Bounded)
    (habsent : s.sessions.find? id = none) (h : Exchange.opened? ⟨s, r⟩ = some (id, l))
    {since : List Request} (hfresh : id ∉ (s.after [r]).created since) :
    (s.after [r]).Followed id l since := by
  have hbounded' : (s.after [r]).sessions.Bounded := (after_bounded hbounded [r]).2
  induction since using List.reverseRecOn with
  | nil => exact followed_nil hbounded habsent h
  | append_singleton since q ih =>
    rw [created_concat, List.mem_append, not_or] at hfresh
    by_cases hq : q.session? = some id
    · exact (ih hfresh.1).step_own (handle_of_opened? h).1 hq
    · exact (ih hfresh.1).step_other (after_bounded hbounded' since).1 hfresh.2 hq

/-- What is promised of a session that a request `r` to the service opens, after the requests that
have come since. Where no other session is open and no other request comes, the service is
`s.closeAll` and the requests are those addressed to the session. -/
structure Isolated (s : Service) (r : Request) (id : String) (l : Lesson)
    (since : List Request) : Prop where
  /-- The answer names the session. -/
  named : ∃ fields, (s.handle r).1 = .ok (.record fields) ∧
    Fields.get fields "session_id" = .text id
  /-- The session is open until it is closed, or until as many as may be open have been opened
  since. -/
  reachable : (∀ q ∈ since, ¬ q.Closes id) →
    ((s.after [r]).created since).length < s.sessions.capacity →
    ((s.after (r :: since)).sessions.find? id).isSome = true
  closed : (∃ q ∈ since, q.Closes id) → (s.after (r :: since)).sessions.find? id = none
  /-- It is opened with the answer that it has alone … -/
  opening : (s.handle r).1 = (s.closeAll.handle r).1
  /-- … and, while it is open, so is every request addressed to it answered. -/
  alike : ((s.after (r :: since)).sessions.find? id).isSome = true →
    ∀ q : Request, q.session? = some id →
    ((s.after (r :: since)).handle q).1 =
      ((s.closeAll.after (r :: since.filter (·.session? = some id))).handle q).1
  /-- The answers have told, once and in order, all notices that its tutor has made known … -/
  told : (s.handle r).1.messages ++ (s.after [r]).told id since =
    Session.shown ((s.after [r]).undisturbed id l since).events
  /-- … of which none is left, and dismissing the tutor adds none. -/
  collected : ∀ session, (s.after (r :: since)).sessions.find? id = some session →
    session.tutor = ((s.after [r]).undisturbed id l since).collect.2
  dismissed : ((s.after [r]).undisturbed id l since).destroy.events =
    ((s.after [r]).undisturbed id l since).events

/-- Requests addressed to a session open none. -/
theorem created_eq_nil (s : Service) {rs : List Request} (h : ∀ q ∈ rs, q.session? = some id) :
    s.created rs = [] := by
  induction rs using List.reverseRecOn with
  | nil => rfl
  | append_singleton rs q ih =>
    have hq : Exchange.created ⟨s.after rs, q⟩ = [] :=
      Exchange.created_of_session? (h q (List.mem_append_right _ (List.mem_singleton_self _)))
    rw [created_concat, ih fun q hq => h q (List.mem_append_left _ hq), hq]
    rfl

/-- While a session is open, it stands as it does alone. -/
theorem Followed.find?_alone {r : Request} (hpositive : 1 ≤ s.sessions.capacity)
    (h : Exchange.opened? ⟨s, r⟩ = some (id, l)) {since : List Request}
    (hfollowed : (s.after [r]).Followed id l since)
    (hfound : ((s.after (r :: since)).sessions.find? id).isSome = true) :
    (s.after (r :: since)).sessions.find? id =
      (s.closeAll.after (r :: since.filter (·.session? = some id))).sessions.find? id := by
  let own := since.filter (·.session? = some id)
  have hown : ∀ q ∈ own, q.session? = some id :=
    fun q hq => of_decide_eq_true (List.mem_filter.1 hq).2
  have hbounded : s.closeAll.sessions.Bounded := ⟨hpositive, Nat.zero_le _⟩
  have hnone : (s.closeAll.after [r]).created own = [] := created_eq_nil _ hown
  have halone : (s.closeAll.after [r]).Followed id l own :=
    followed hbounded rfl h (hnone ▸ List.not_mem_nil)
  cases hfollowed.standing with
  | gone absent =>
    have habsent : (s.after (r :: since)).sessions.find? id = none := absent
    rw [habsent] at hfound
    cases hfound
  | «open» holds teaches served stays =>
    cases halone.standing with
    | gone _ _ cause =>
      rcases cause with ⟨q, hq, hcloses⟩ | hfull
      · exact absurd hcloses (stays q (List.mem_filter.1 hq).1)
      · rw [hnone, (after_bounded hbounded [r]).1] at hfull
        exact absurd hpositive (Nat.not_le_of_lt (Nat.lt_succ_of_le hfull))
    | «open» holds' _ served' =>
      have hserved : (s.after [r]).served id since = (s.closeAll.after [r]).served id own := by
        rw [served, served', List.filter_eq_self.2 fun q hq => decide_eq_true (hown q hq)]
      have hsame : (s.after [r]).undisturbed id l since =
          (s.closeAll.after [r]).undisturbed id l own := by
        rw [undisturbed, undisturbed, hserved]
      exact (hsame ▸ holds.find?).trans holds'.find?.symm

/-- A session whose identifier is not given to another one is isolated. -/
theorem isolated {r : Request} (hbounded : s.sessions.Bounded)
    (habsent : s.sessions.find? id = none) (h : Exchange.opened? ⟨s, r⟩ = some (id, l))
    {since : List Request} (hfresh : id ∉ (s.after [r]).created since) :
    s.Isolated r id l since := by
  have hfollowed := followed hbounded habsent h hfresh
  have hquiet : ((s.after [r]).undisturbed id l since).autoPlay = none := by
    cases hfollowed.standing with
    | «open» _ teaches => exact teaches.quiet
    | gone _ quiet => exact quiet
  have hcapacity := (after_bounded hbounded [r]).1
  obtain ⟨-, rfl, hhandle⟩ := handle_of_opened? h
  obtain ⟨-, -, hhandle'⟩ := handle_of_opened? (s := s.closeAll) h
  obtain ⟨-, -, -, -, hanswer⟩ := start_eq hbounded l
  obtain ⟨-, -, -, -, hanswer'⟩ := start_eq (s := s.closeAll) ⟨hbounded.positive, Nat.zero_le _⟩ l
  refine ⟨?_, fun hstays hfew => ?_, ?_, ?_, fun hfound q hq => ?_, ?_, ?_,
    (Tutor.destroy_quiet hquiet).1⟩
  · exact ⟨_, by rw [hhandle, hanswer]; rfl, rfl⟩
  · cases hfollowed.standing with
    | «open» holds => exact Option.isSome_iff_exists.2 ⟨_, holds.find?⟩
    | gone _ _ cause =>
      rcases cause with ⟨q, hq, hcloses⟩ | hfull
      · exact absurd hcloses (hstays q hq)
      · exact absurd hfew (Nat.not_lt_of_le (hcapacity ▸ hfull))
  · rintro ⟨q, hq, hcloses⟩
    cases hfollowed.standing with
    | «open» _ _ _ stays => exact absurd hcloses (stays q hq)
    | gone absent => exact absent
  · rw [hhandle, hhandle', hanswer, hanswer']
    rfl
  · exact handle_congr hq (hfollowed.find?_alone hbounded.positive h hfound)
  · rw [hfollowed.told, hhandle, hanswer, Session.tell_messages]
    rfl
  · intro session hfind
    cases hfollowed.standing with
    | «open» holds => exact congrArg Session.tutor (Option.some.inj (hfind.symm.trans holds.find?))
    | gone absent => exact absurd (hfind.symm.trans absent) (Option.some_ne_none _)

/-- After every run of requests to a service where nothing has happened yet, and where at least one
session may be open: no more sessions are open than may be; and if no identifier is given to two
sessions, each session that has been opened is isolated. It stays open until it is closed or as many
as may be open have been opened after it, is answered as if it were alone while it is open, and its
answers tell, once and in order, what its tutor makes known. -/
theorem run_isolated {capacity : Nat} (hcapacity : 1 ≤ capacity) (supply : Supply)
    (rs : List Request) : let s : Service := { sessions := { capacity }, supply }
    (s.after rs).sessions.size ≤ capacity ∧
      ((s.created rs).Nodup → ∀ before r since, rs = before ++ r :: since → ∀ id l,
        Exchange.opened? ⟨s.after before, r⟩ = some (id, l) →
          (s.after before).Isolated r id l since) := by
  intro s
  have hbounded : s.sessions.Bounded := ⟨hcapacity, Nat.zero_le _⟩
  refine ⟨?_, ?_⟩
  · obtain ⟨hsame, hbounded⟩ := after_bounded hbounded rs
    exact Nat.le_trans hbounded.size_le (Nat.le_of_eq hsame)
  · rintro hnodup before r since rfl id l h
    have hid : Exchange.created ⟨s.after before, r⟩ = [id] := by
      rw [Exchange.created, h]
      rfl
    have hcreated : s.created (before ++ r :: since) =
        s.created before ++ ([id] ++ ((s.after before).after [r]).created since) := by
      rw [created_append, ← hid]
      rfl
    rw [hcreated] at hnodup
    have hbefore : id ∉ s.created before := fun hmem =>
      (List.nodup_append.1 hnodup).2.2 id hmem id (.head _) rfl
    have hsince := (List.nodup_cons.1 (List.nodup_append.1 hnodup).2.1).1
    exact isolated (after_bounded hbounded before).2 (find?_after_eq_none rfl hbefore) h hsince

/-- Three sessions where two may be open: the third one pushes out the first one, which then is not
there any more, and the second one keeps its place and tells its hint and its reset. -/
theorem run_isolated_crowded :
    let start (lesson : String) : Request :=
      ⟨"POST", "/api/sessions", [], some (.record [("equation_id", .text lesson)])⟩
    let ask (id action : String) : Request :=
      ⟨"POST", "/api/sessions/" ++ id ++ "/" ++ action, [], none⟩
    let first := "00000001000000000000000000000000"
    let second := "00000002000000000000000000000000"
    let s : Service := { sessions := { capacity := 2 }, supply := {} }
    let before := [start "lin_001"]
    let since := [ask first "advance", ask second "hint", start "lin_002", ask first "reset",
    ask second "reset"]
    let rs := before ++ start " quad_001 " :: since
    1 ≤ 2 ∧ (s.created rs).Nodup ∧ (s.after rs).sessions.size ≤ 2 ∧
      (((s.after rs).sessions.find? first).isSome = false ∧
        ((s.after rs).sessions.find? second).isSome = true ∧
        (((s.after before).after [start " quad_001 "]).told second since).length = 2) ∧
      ∃ l, Exchange.opened? ⟨s.after before, start " quad_001 "⟩ = some (second, l) ∧
        (s.after before).Isolated (start " quad_001 ") second l since := by
  intro start ask first second s before since rs
  obtain ⟨hsize, hisolated⟩ := run_isolated (by decide : 1 ≤ 2) {} rs
  have hfresh : (s.created rs).Nodup := by decide +kernel
  have hopened : (Exchange.opened? ⟨s.after before, start " quad_001 "⟩).map
      Prod.fst = some second := by
    decide +kernel
  obtain ⟨⟨_, l⟩, h, rfl⟩ := Option.map_eq_some_iff.1 hopened
  exact ⟨by decide, hfresh, hsize, by decide +kernel, l, h,
    hisolated hfresh before _ since rfl second l h⟩

end Service

end EquationStudio
