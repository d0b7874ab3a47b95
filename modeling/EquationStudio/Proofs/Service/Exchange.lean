import EquationStudio.Proofs.Basic
import EquationStudio.Proofs.Service.Sessions
import EquationStudio.Proofs.Service.Tutor

/-!
# Exchanges with the service

An `Exchange` is a request together with the service that it comes to, and `Service.exchanges` are
those of a run. `Exchange.Moves` says once all that a request can do to the open sessions, and
`Exchange.moves` proves that it does nothing else. What a request addressed to a session is about
does not depend on the service (`Request.Errand`): it is refused by itself, asks something of the
session's tutor, or closes the session.
-/

namespace EquationStudio

/-! ## Requests -/

/-- The session to which a call is addressed, if it is addressed to one. -/
def Call.session? : Call → Option String
  | .view id | .advance id | .hint id | .reset id | .tick id _ | .close id => some id
  | .lessons .. | .lesson _ | .start _ | .synthesize _ => none

/-- What a call comes to for the tutor of the session to which it is addressed. -/
def Call.op? : Call → Option Tutor.Op
  | .advance _ => some .advance
  | .hint _ => some .hint
  | .reset _ => some .reset
  | .tick _ ms => some (.tick (.int ms))
  | .close _ => some .destroy
  | .view _ | .lessons .. | .lesson _ | .start _ | .synthesize _ => none

/-- The notices that an answer tells. -/
def Response.messages : Response → List Datum
  | .ok (.record fields) =>
    match Fields.get fields "messages" with
    | .list messages => messages
    | _ => []
  | _ => []

namespace Request

/-- The session to which a request is addressed by its path, whether or not it makes sense. -/
def session? (r : Request) : Option String :=
  match r.segments with
  | "api" :: "sessions" :: id :: _ => some id
  | _ => none

/-- What a request comes to for the tutor of the session to which it is addressed. -/
def op? (r : Request) : Option Tutor.Op := r.call.toOption.bind Call.op?

/-- Whether a request closes a session. -/
def Closes (r : Request) (id : String) : Prop := r.call = .ok (.close id)

/-! ### How requests are read -/

section
variable {r : Request} {response : Response}

/-- A body that is no object. -/
theorem fields_error (h : r.fields = .error response) : response = .unreadable := by
  unfold fields at h
  split at h
  · cases h
  · cases h
    rfl

/-- A body that tells no stretch of time. -/
theorem elapsed_error (h : r.elapsed = .error response) : response = .unreadable := by
  rcases error_of_bind h with hfields | ⟨fields, -, h⟩
  · exact fields_error hfields
  · split at h
    · cases h
    · cases h
      rfl

/-- A body that names no lesson. -/
theorem lessonId_error (h : r.lessonId = .error response) : response = .unreadable := by
  rcases error_of_bind h with hfields | ⟨fields, -, h⟩
  · exact fields_error hfields
  · split at h
    · cases h
    · cases h
      rfl

/-- A part of a diagram that is no list of objects. -/
theorem objects_error {fields : Fields} {key : String} (h : objects fields key = .error response) :
    response = .unreadable := by
  unfold objects at h
  split at h
  · cases h
  · split at h
    · cases h
    · cases h
      rfl
  · cases h
    rfl

/-- A body that holds no diagram. -/
theorem submission_error (h : r.submission = .error response) : response = .unreadable := by
  rcases error_of_bind h with hfields | ⟨fields, -, h⟩
  · exact fields_error hfields
  rcases error_of_bind h with hnodes | ⟨nodes, -, h⟩
  · exact objects_error hnodes
  rcases error_of_bind h with hconnections | ⟨connections, -, h⟩
  · exact objects_error hconnections
  rcases error_of_bind h with hconstraints | ⟨constraints, -, h⟩
  · exact objects_error hconstraints
  split at h
  · cases h
  · cases h
  · cases h
    rfl

/-- What a request is read as: a refusal, which tells no notices, or a call that is addressed as the
path says. -/
inductive Reads (r : Request) : Except Response Call → Prop
  | refused {response : Response} (silent : response.messages = []) : Reads r (.error response)
  | call {c : Call} (addressed : c.session? = r.session?) : Reads r (.ok c)

/-- A method other than the one that a resource has is refused. -/
theorem Reads.only {made : Except Response Call} (h : r.Reads made) (method : String) :
    r.Reads (if r.method = method then made else .error .notAllowed) := by
  split
  · exact h
  · exact .refused rfl

/-- A call for which something is read off the body. -/
theorem Reads.body {α : Type} {read : Except Response α} {made : α → Call}
    (herror : ∀ {response}, read = .error response → response = .unreadable)
    (h : ∀ a, (made a).session? = r.session?) : r.Reads (do return made (← read)) := by
  cases hread : read with
  | error response =>
    cases herror hread
    exact .refused rfl
  | ok a => exact .call (h a)

end

/-- How every request is read. -/
theorem reads (r : Request) : r.Reads r.call := by
  have hpath : ∀ {segments : List String} {found : Option String}, r.segments = segments →
      (match segments with
        | "api" :: "sessions" :: id :: _ => some id
        | _ => none) = found → found = r.session? := by
    rintro _ _ rfl rfl
    rfl
  unfold call
  dsimp only
  split
  · next h => exact .only (.call (hpath h rfl)) _
  · next h => exact .only (.call (hpath h rfl)) _
  · exact .refused rfl
  · next h => exact .only (.body lessonId_error fun _ => hpath h rfl) _
  · next id h =>
    split
    · exact .call (hpath h rfl)
    · exact .call (hpath h rfl)
    · exact .refused rfl
  · next id _ h => exact .only (.call (hpath h rfl)) _
  · next id _ h => exact .only (.call (hpath h rfl)) _
  · next id _ h => exact .only (.call (hpath h rfl)) _
  · next id _ h => exact .only (.body elapsed_error fun _ => hpath h rfl) _
  · next h => exact .only (.body submission_error fun _ => hpath h rfl) _
  · exact .refused rfl

/-- A request that closes a session is addressed to it. -/
theorem session?_of_closes {r : Request} {id : String} (h : r.Closes id) :
    r.session? = some id := by
  have hreads := r.reads
  rw [show r.call = .ok (.close id) from h] at hreads
  cases hreads with
  | call addressed => exact addressed.symm

/-- A request that makes sense is answered as the call that it is. -/
theorem handle_of_call {r : Request} {c : Call} (h : r.call = .ok c) (s : Service) :
    s.handle r = s.answer c := by
  rw [Service.handle, h]

/-- What a request addressed to a session is about, whichever service it comes to. -/
inductive Errand (r : Request) (id : String) : Prop
  | refused {response : Response} (handled : ∀ s : Service, s.handle r = (response, [], s))
      (silent : response.messages = []) (idle : r.op? = none) (stays : ¬ r.Closes id)
  | ask {f : Tutor → Except Fault (Option Hint) × Tutor}
      (handled : ∀ s : Service, s.handle r = s.ask id f)
      (serves : Tutor.Serves f r.op?) (stays : ¬ r.Closes id)
  | close (closes : r.Closes id)

/-- A call that asks something of a session's tutor. -/
theorem Errand.of_call {r : Request} {id : String} {c : Call} (hcall : r.call = .ok c)
    {f : Tutor → Except Fault (Option Hint) × Tutor} (hserves : Tutor.Serves f c.op?)
    (hanswer : ∀ s : Service, s.answer c = s.ask id f) (hstays : c ≠ .close id) : r.Errand id := by
  have hop : r.op? = c.op? := by rw [op?, hcall]; rfl
  exact .ask (fun s => (handle_of_call hcall s).trans (hanswer s)) (hop ▸ hserves)
    fun hcloses => hstays (Except.ok.inj (hcall.symm.trans hcloses))

/-- A request addressed to a session is refused, asks something of its tutor, or closes it. -/
theorem errand {r : Request} {id : String} (h : r.session? = some id) : r.Errand id := by
  have hreads := r.reads
  cases hcall : r.call with
  | error response =>
    rw [hcall] at hreads
    cases hreads with
    | refused silent =>
      exact .refused (fun s => by rw [Service.handle, hcall]) silent (by rw [op?, hcall]; rfl)
        fun hcloses => by cases hcall.symm.trans hcloses
  | ok c =>
    have haddressed : c.session? = some id := by
      rw [hcall] at hreads
      cases hreads with
      | call addressed => exact addressed.trans h
    cases c with
    | lessons | lesson | start | synthesize => cases haddressed
    | view =>
      cases haddressed
      exact .of_call hcall Tutor.serves_view (fun _ => rfl) nofun
    | advance =>
      cases haddressed
      exact .of_call hcall Tutor.serves_advance (fun _ => rfl) nofun
    | hint =>
      cases haddressed
      exact .of_call hcall Tutor.serves_hint (fun _ => rfl) nofun
    | reset =>
      cases haddressed
      exact .of_call hcall Tutor.serves_reset (fun _ => rfl) nofun
    | tick _ ms =>
      cases haddressed
      exact .of_call hcall (Tutor.serves_passTime ms) (fun _ => rfl) nofun
    | close =>
      cases haddressed
      exact .close hcall

end Request

/-! ## What a request does to the sessions -/

namespace Service

/-- Asking something of a session's tutor at most changes the state of that session. -/
theorem ask_sessions (s : Service) (id : String) (f : Tutor → Except Fault (Option Hint) × Tutor) :
    (s.ask id f).2.2.sessions = s.sessions ∨
      ∃ tutor, (s.ask id f).2.2.sessions = s.sessions.update ⟨id, tutor⟩ := by
  unfold ask
  split
  · exact .inl rfl
  · next session hfind =>
    cases Sessions.id_of_find? hfind
    dsimp only
    split
    · exact .inr ⟨_, rfl⟩
    · exact .inr ⟨_, rfl⟩

/-- A session that is opened takes its place among the others, and all that loading the lesson has
made known is told; where there is no place, nothing is opened. -/
theorem start_cases (s : Service) (l : Lesson) :
    let id := (s.supply.draw 32).1
    let inserted := s.sessions.insert ⟨id, (Tutor.load {} l).collect.2⟩
    (inserted = none ∧ (s.start l).2.2.sessions = s.sessions) ∨
      ∃ journal ss, inserted = some (journal, ss) ∧ (s.start l).2.2.sessions = ss ∧
        (s.start l).1 = .ok ((Session.start id l).tell none).1 := by
  intro id inserted
  unfold start
  dsimp only
  split
  · next journal ss hinsert => exact .inr ⟨journal, ss, hinsert, rfl, rfl⟩
  · next hnone => exact .inl ⟨hnone, rfl⟩

/-- Closing a session takes it from the others. -/
theorem close_sessions (s : Service) (id : String) :
    (s.answer (.close id)).2.2.sessions = s.sessions ∨
      (s.answer (.close id)).2.2.sessions = s.sessions.erase id := by
  unfold answer
  dsimp only
  split
  · exact .inl rfl
  · exact .inr rfl

end Service

/-- A request and the service that it comes to. -/
structure Exchange where
  service : Service
  request : Request

namespace Exchange

/-- What is answered. -/
def response (t : Exchange) : Response := (t.service.handle t.request).1

/-- The service afterwards. -/
def next (t : Exchange) : Service := (t.service.handle t.request).2.2

/-- The identifier and the lesson of the session that is opened, if one is. -/
def opened? (t : Exchange) : Option (String × Lesson) :=
  match t.request.call with
  | .ok (.start lesson) =>
    (Catalog.find? (trimBlank lesson)).map fun l => ((t.service.supply.draw 32).1, l)
  | _ => none

/-- The identifiers of the sessions that are opened: one, or none. -/
def created (t : Exchange) : List String := (t.opened?.map Prod.fst).toList

/-- Whether the request is addressed to a session. -/
def concerns (id : String) (t : Exchange) : Bool := t.request.session? = some id

/-- Whether the request reaches a session, which must be open. -/
def reaches (id : String) (t : Exchange) : Bool :=
  t.concerns id && (t.service.sessions.find? id).isSome

/-- All that a request can do to the sessions. -/
inductive Moves (t : Exchange) : Sessions → Prop
  | keep : Moves t t.service.sessions
  | start {id : String} {l : Lesson} {journal : Journal} {ss : Sessions}
      (opened : t.opened? = some (id, l))
      (inserted : t.service.sessions.insert ⟨id, (Tutor.load {} l).collect.2⟩ =
        some (journal, ss)) :
      Moves t ss
  | ask {id : String} (addressed : t.request.session? = some id) (tutor : Tutor) :
      Moves t (t.service.sessions.update ⟨id, tutor⟩)
  | close {id : String} (addressed : t.request.session? = some id) (closes : t.request.Closes id) :
      Moves t (t.service.sessions.erase id)

/-- What a request does to the sessions. -/
theorem moves (t : Exchange) : t.Moves t.next.sessions := by
  obtain ⟨s, r⟩ := t
  show Moves ⟨s, r⟩ (s.handle r).2.2.sessions
  cases haddressed : r.session? with
  | some id =>
    cases Request.errand haddressed with
    | refused handled =>
      rw [handled]
      exact .keep
    | @ask f handled =>
      rw [handled]
      rcases s.ask_sessions id f with hkeep | ⟨tutor, hchange⟩
      · rw [hkeep]
        exact .keep
      · rw [hchange]
        exact Moves.ask (t := ⟨s, r⟩) haddressed tutor
    | close closes =>
      rw [Request.handle_of_call closes]
      rcases s.close_sessions id with hkeep | herase
      · rw [hkeep]
        exact .keep
      · rw [herase]
        exact .close haddressed closes
  | none =>
    have hreads := r.reads
    cases hcall : r.call with
    | error response =>
      rw [Service.handle, hcall]
      exact .keep
    | ok c =>
      rw [Request.handle_of_call hcall]
      rw [hcall] at hreads
      have hunaddressed : c.session? = none := by
        cases hreads with
        | call addressed => exact addressed.trans haddressed
      cases c with
      | view | advance | hint | reset | tick | close => cases hunaddressed
      | lessons difficulty topic =>
        unfold Service.answer
        dsimp only
        split <;> exact .keep
      | lesson id =>
        unfold Service.answer
        dsimp only
        split <;> exact .keep
      | synthesize => exact .keep
      | start lesson =>
        unfold Service.answer
        dsimp only
        split
        · next l hl =>
          have hopened : opened? ⟨s, r⟩ = some ((s.supply.draw 32).1, l) := by
            simp only [opened?, hcall, hl, Option.map_some]
          rcases s.start_cases l with ⟨-, hkeep⟩ | ⟨journal, ss, hinsert, heq, -⟩
          · rw [hkeep]
            exact .keep
          · rw [heq]
            exact .start hopened hinsert
        · exact .keep

section
variable {t : Exchange} {id : String} {ss : Sessions}

/-- A request that opens a session is addressed to none. -/
theorem created_of_session? (h : t.request.session? = some id) : t.created = [] := by
  have hreads := t.request.reads
  have hnone : t.opened? = none := by
    unfold opened?
    split
    · next lesson hcall =>
      rw [hcall] at hreads
      cases hreads with
      | call addressed => cases addressed.trans h
    · rfl
  rw [created, hnone]
  rfl

/-- The bound stays as it is, and is kept. -/
theorem Moves.bounded (h : t.Moves ss) (hbounded : t.service.sessions.Bounded) :
    ss.capacity = t.service.sessions.capacity ∧ ss.Bounded := by
  cases h with
  | keep => exact ⟨rfl, hbounded⟩
  | start _ inserted => exact ⟨(Sessions.insert_cases inserted).1, hbounded.insert inserted⟩
  | ask _ tutor => exact ⟨rfl, hbounded.update _⟩
  | close => exact ⟨rfl, hbounded.erase _⟩

/-- A session that is not open stays so, unless it is opened. -/
theorem Moves.find?_eq_none (h : t.Moves ss) (hcreated : id ∉ t.created)
    (hnone : t.service.sessions.find? id = none) : ss.find? id = none := by
  cases h with
  | keep => exact hnone
  | start opened inserted =>
    refine Sessions.find?_insert_eq_none hnone ?_ inserted
    rintro rfl
    exact hcreated (by simp [created, opened])
  | ask _ tutor => exact Sessions.find?_update_eq_none hnone _
  | close => exact Sessions.find?_erase_eq_none hnone _

/-- A session stays open, with its tutor, while others are asked something, closed or opened, until
as many as may be open have been opened after it. -/
theorem Moves.holds (h : t.Moves ss) {tutor : Tutor} {newer : Nat} (hcreated : id ∉ t.created)
    (haddressed : t.request.session? ≠ some id) (hholds : t.service.sessions.Holds id tutor newer) :
    ss.Holds id tutor (newer + t.created.length) ∨
      ss.find? id = none ∧ t.service.sessions.capacity ≤ newer + t.created.length := by
  cases h with
  | keep => exact .inl (hholds.mono (Nat.le_add_right _ _))
  | start opened inserted =>
    have hlength : t.created.length = 1 := by simp [created, opened]
    rw [hlength]
    refine hholds.insert ?_ inserted
    rintro rfl
    exact hcreated (by simp [created, opened])
  | @ask other addressed tutor =>
    refine .inl ((hholds.update_of_ne ?_).mono (Nat.le_add_right _ _))
    rintro rfl
    exact haddressed addressed
  | close addressed =>
    refine .inl ((hholds.erase_of_ne ?_).mono (Nat.le_add_right _ _))
    rintro rfl
    exact haddressed addressed

end

end Exchange

/-! ## Runs -/

namespace Service

/-- The service after some requests. -/
def after (s : Service) (rs : List Request) : Service := rs.foldl (fun s r => (s.handle r).2.2) s

/-- The exchanges in which requests are answered. -/
def exchanges : Service → List Request → List Exchange
  | _, [] => []
  | s, r :: rs => ⟨s, r⟩ :: exchanges (s.handle r).2.2 rs

/-- The identifiers of the sessions that are opened. -/
def created (s : Service) (rs : List Request) : List String :=
  (s.exchanges rs).flatMap Exchange.created

/-- The requests that reach a session. -/
def served (s : Service) (id : String) (rs : List Request) : List Request :=
  ((s.exchanges rs).filter (Exchange.reaches id)).map Exchange.request

/-- The notices that the answers to the requests addressed to a session tell. -/
def told (s : Service) (id : String) (rs : List Request) : List Datum :=
  ((s.exchanges rs).filter (Exchange.concerns id)).flatMap (·.response.messages)

section
variable (s : Service) (id : String) (rs : List Request) (q : Request)

/-- One more request. -/
theorem after_concat : s.after (rs ++ [q]) = Exchange.next ⟨s.after rs, q⟩ := by
  rw [after, List.foldl_append]
  rfl

/-- The exchanges of a run that goes on. -/
theorem exchanges_append (qs : List Request) :
    s.exchanges (rs ++ qs) = s.exchanges rs ++ (s.after rs).exchanges qs := by
  induction rs generalizing s with
  | nil => rfl
  | cons r rs ih => exact congrArg (List.cons _) (ih _)

/-- One more request is one more exchange. -/
theorem exchanges_concat : s.exchanges (rs ++ [q]) = s.exchanges rs ++ [⟨s.after rs, q⟩] :=
  exchanges_append s rs [q]

/-- A run that goes on opens further sessions. -/
theorem created_append (qs : List Request) :
    s.created (rs ++ qs) = s.created rs ++ (s.after rs).created qs := by
  rw [created, exchanges_append, List.flatMap_append]
  rfl

/-- One more request opens one more session, or none. -/
theorem created_concat :
    s.created (rs ++ [q]) = s.created rs ++ Exchange.created ⟨s.after rs, q⟩ := by
  rw [created, exchanges_concat, List.flatMap_append, List.flatMap_singleton]
  rfl

/-- One more request reaches a session, or does not. -/
theorem served_concat : s.served id (rs ++ [q]) =
    s.served id rs ++ if Exchange.reaches id ⟨s.after rs, q⟩ then [q] else [] := by
  rw [served, exchanges_concat, List.filter_append, List.map_append]
  cases hreaches : Exchange.reaches id ⟨s.after rs, q⟩ <;> simp [hreaches, served]

/-- One more request is answered with notices, if it is addressed to the session. -/
theorem told_concat : s.told id (rs ++ [q]) = s.told id rs ++
    if Exchange.concerns id ⟨s.after rs, q⟩
    then (Exchange.response ⟨s.after rs, q⟩).messages else [] := by
  rw [told, exchanges_concat, List.filter_append, List.flatMap_append]
  cases hconcerns : Exchange.concerns id ⟨s.after rs, q⟩ <;> simp [hconcerns, told]

end

/-- The bound stays as it is, and is kept. -/
theorem after_bounded {s : Service} (h : s.sessions.Bounded) (rs : List Request) :
    (s.after rs).sessions.capacity = s.sessions.capacity ∧ (s.after rs).sessions.Bounded := by
  induction rs generalizing s with
  | nil => exact ⟨rfl, h⟩
  | cons r rs ih =>
    obtain ⟨hcapacity, hbounded⟩ := (Exchange.moves ⟨s, r⟩).bounded h
    obtain ⟨hcapacity', hbounded'⟩ := ih hbounded
    exact ⟨hcapacity'.trans hcapacity, hbounded'⟩

/-- Only sessions that have been opened are open. -/
theorem find?_after_eq_none {s : Service} {id : String} (h : s.sessions.find? id = none)
    {rs : List Request} (hcreated : id ∉ s.created rs) : (s.after rs).sessions.find? id = none := by
  induction rs generalizing s with
  | nil => exact h
  | cons r rs ih =>
    rw [created, exchanges, List.flatMap_cons, List.mem_append, not_or] at hcreated
    exact ih ((Exchange.moves ⟨s, r⟩).find?_eq_none hcreated.1 h) hcreated.2

end Service

end EquationStudio
