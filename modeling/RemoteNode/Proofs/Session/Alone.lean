import Mathlib.Tactic.Common
import RemoteNode.Session.Step

/-! A procedure that runs alone. It is given replies, one for each of its requests: what it and the
node say to each other, what is left of it meanwhile and what it comes to in the end depend on
nothing else. -/

namespace RemoteNode.Session

/-- What an operation and the node say to each other. -/
inductive Message where
  | request (c : Command) (r : c.Request)
  | reply (r : Reply)

/-- The reply that a message is. -/
def Message.reply? : Message → Option Reply
  | request _ _ => none
  | reply r => some r

/-- The replies among messages. -/
def repliesOf (es : List Message) : List Reply := es.filterMap Message.reply?

@[simp] theorem repliesOf_append (es fs : List Message) :
    repliesOf (es ++ fs) = repliesOf es ++ repliesOf fs := List.filterMap_append

@[simp] theorem repliesOf_request (c : Command) (r : c.Request) (es : List Message) :
    repliesOf (.request c r :: es) = repliesOf es := rfl

@[simp] theorem repliesOf_reply (r : Reply) (es : List Message) :
    repliesOf (.reply r :: es) = r :: repliesOf es := rfl

@[simp] theorem repliesOf_nil : repliesOf [] = [] := rfl

/-- What a reply brings to whoever has asked for it. -/
def Reply.content (limit : Exchange.Timeout) (c : Command) : Reply → Except Failure c.Content
  | arrival a =>
    match answer c limit a with
    | .ok content => .ok content
    | .error e => .error (.ofExchange e)
  | panic m => .error (.internal m)

namespace Procedure
variable {α : Type} {limit : Exchange.Timeout} {p q : Procedure α} {es : List Message}
  {rs : List Reply} {r : Reply}

/-- What is left of a procedure once the reply to what it asks has come. -/
def after (limit : Exchange.Timeout) : Procedure α → Reply → Procedure α
  | done result, _ => done result
  | ask c _ next, .arrival a =>
    match answer c limit a with
    | .ok content => next content
    | .error e => .done (.error (.ofExchange e))
  | ask _ _ _, .panic m => .done (.error (.internal m))

/-- What is left of a procedure that runs alone once it was given some replies in turn. -/
def left (limit : Exchange.Timeout) (p : Procedure α) (rs : List Reply) : Procedure α :=
  rs.foldl (after limit) p

/-- What a procedure that runs alone and the node say to each other while it is given some replies
in turn: every request is followed by its reply, and nothing is asked once it is done. -/
def dialogue (limit : Exchange.Timeout) : Procedure α → List Reply → List Message
  | ask c q next, r :: rs =>
    .request c q :: .reply r :: dialogue limit ((ask c q next).after limit r) rs
  | _, _ => []

/-- Every message was exchanged by the procedure alone, and this is left of it. -/
structure LeadsTo (limit : Exchange.Timeout) (p : Procedure α) (es : List Message)
    (q : Procedure α) : Prop where
  dialogue : es = p.dialogue limit (repliesOf es)
  left : p.left limit (repliesOf es) = q

/-- So was every message but the last, which is the request that what is left of it asks. -/
def Awaits (limit : Exchange.Timeout) (p : Procedure α) (es : List Message) (q : Procedure α) :
    Prop :=
  ∃ es' c r next, es = es' ++ [.request c r] ∧ q = .ask c r next ∧ p.LeadsTo limit es' q

/-- The messages are what the procedure alone has exchanged so far. -/
def Speaks (limit : Exchange.Timeout) (p : Procedure α) (es : List Message) : Prop :=
  ∃ q, p.LeadsTo limit es q ∨ p.Awaits limit es q

theorem LeadsTo.start : p.LeadsTo limit [] p := ⟨by cases p <;> rfl, rfl⟩

theorem Speaks.start : p.Speaks limit [] := ⟨p, .inl .start⟩

theorem left_done (result : Except Failure α) (rs : List Reply) :
    (done result : Procedure α).left limit rs = done result := by
  induction rs with
  | nil => rfl
  | cons r rs ih => exact ih

theorem dialogue_concat {c : Command} {req : c.Request} {next : c.Content → Procedure α}
    (h : p.left limit rs = .ask c req next) :
    p.dialogue limit (rs ++ [r]) = p.dialogue limit rs ++ [.request c req, .reply r] := by
  induction rs generalizing p with
  | nil =>
    obtain rfl : p = .ask c req next := h
    cases hp : (ask c req next).after limit r <;> simp [dialogue, hp]
  | cons a rs ih =>
    cases p with
    | done result =>
      rw [left_done] at h
      cases h
    | ask c' req' next' =>
      have h : ((ask c' req' next').after limit a).left limit rs = .ask c req next := h
      simp only [List.cons_append, dialogue, ih h]

/-- The reply to a request leads on. -/
theorem Awaits.reply (h : p.Awaits limit es q) (r : Reply) :
    p.LeadsTo limit (es ++ [.reply r]) (q.after limit r) := by
  obtain ⟨es, c, req, next, rfl, rfl, said⟩ := h
  have replies : repliesOf (es ++ [.request c req] ++ [.reply r]) = repliesOf es ++ [r] := by
    simp
  constructor
  · rw [replies, dialogue_concat said.left, ← said.dialogue]
    simp
  · rw [replies, left, List.foldl_append]
    exact congrArg (after limit · r) said.left

/-- A request is sent by what asks it. -/
theorem LeadsTo.request {c : Command} {req : c.Request} {next : c.Content → Procedure α}
    (h : p.LeadsTo limit es (.ask c req next)) :
    p.Awaits limit (es ++ [.request c req]) (.ask c req next) := ⟨es, c, req, next, rfl, rfl, h⟩

theorem after_ask (c : Command) (req : c.Request) (next : c.Content → Procedure α) (r : Reply) :
    (ask c req next).after limit r =
      match r.content limit c with
      | .ok content => next content
      | .error e => .done (.error e) := by
  cases r with
  | panic m => rfl
  | arrival a =>
    simp only [after, Reply.content]
    cases answer c limit a <;> rfl

theorem leadsTo_done_iff {a b : Except Failure α} :
    (done a).LeadsTo limit es (.done b) ↔ es = [] ∧ b = a := by
  constructor
  · rintro ⟨said, left⟩
    rw [left_done] at left
    cases left
    exact ⟨said.trans (by simp [dialogue]), rfl⟩
  · rintro ⟨rfl, rfl⟩
    exact .start

theorem leadsTo_ask_iff {c : Command} {req : c.Request} {next : c.Content → Procedure α}
    {result : Except Failure α} :
    (ask c req next).LeadsTo limit es (.done result) ↔
      (∃ r e, r.content limit c = .error e ∧ es = [.request c req, .reply r] ∧
        result = .error e) ∨
      ∃ r content es', r.content limit c = .ok content ∧ es = .request c req :: .reply r :: es' ∧
        (next content).LeadsTo limit es' (.done result) := by
  -- the first exchange is that of the request, and what comes after it is that of what is left
  have first : (ask c req next).LeadsTo limit es (.done result) ↔
      ∃ r es', es = .request c req :: .reply r :: es' ∧
        ((ask c req next).after limit r).LeadsTo limit es' (.done result) := by
    constructor
    · rintro ⟨said, left⟩
      cases hr : repliesOf es with
      | nil =>
        rw [hr] at left
        cases left
      | cons r rs =>
        rw [hr, dialogue] at said
        have replies : rs = repliesOf (dialogue limit ((ask c req next).after limit r) rs) := by
          rw [said] at hr
          exact (List.cons.inj hr).2.symm
        rw [hr] at left
        exact ⟨r, _, said, ⟨by rw [← replies], by rw [← replies]; exact left⟩⟩
    · rintro ⟨r, es', rfl, said, left⟩
      refine ⟨?_, left⟩
      rw [repliesOf_request, repliesOf_reply, dialogue, ← said]
  rw [first]
  constructor
  · rintro ⟨r, es', rfl, said⟩
    rw [after_ask] at said
    cases brought : r.content limit c with
    | error e =>
      rw [brought] at said
      obtain ⟨rfl, rfl⟩ := leadsTo_done_iff.mp said
      exact .inl ⟨r, e, brought, rfl, rfl⟩
    | ok content =>
      rw [brought] at said
      exact .inr ⟨r, content, es', brought, rfl, said⟩
  · rintro (⟨r, e, brought, rfl, rfl⟩ | ⟨r, content, es', brought, rfl, said⟩)
    · refine ⟨r, [], rfl, ?_⟩
      rw [after_ask, brought]
      exact .start
    · refine ⟨r, es', rfl, ?_⟩
      rw [after_ask, brought]
      exact said

/-- What was said so far is how something begins that comes to a result. -/
theorem Speaks.completes (h : p.Speaks limit es) :
    ∃ more result, p.LeadsTo limit (es ++ more) (.done result) := by
  have lost {q : Procedure α} {es : List Message} (waits : p.Awaits limit es q) :
      ∃ more result, p.LeadsTo limit (es ++ more) (.done result) := by
    obtain ⟨-, c, req, next, -, rfl, -⟩ := id waits
    exact ⟨_, _, waits.reply (.panic "")⟩
  obtain ⟨q, said | waits⟩ := h
  · cases q with
    | done result => exact ⟨[], result, by rwa [List.append_nil]⟩
    | ask c req next =>
      obtain ⟨more, result, said⟩ := lost said.request
      exact ⟨_, result, by rwa [List.append_assoc] at said⟩
  · exact lost waits

/-- What a procedure comes to by its replies is what it results in when it runs alone and these are
the outcomes of its requests. -/
theorem run_of_left {reply : Nat → (c : Command) → c.Request → Except Exchange.Error c.Content}
    {result : Except Failure α} {n : Nat} (h : p.left limit rs = .done result)
    (outcomes : ∀ i r, rs[i]? = some r →
      ∃ a, r = .arrival a ∧ ∀ c q, reply (n + i) c q = answer c limit a) :
    p.run reply n = result := by
  induction rs generalizing p n with
  | nil =>
    obtain rfl : p = .done result := h
    rfl
  | cons r rs ih =>
    cases p with
    | done result' =>
      rw [left_done] at h
      cases h
      rfl
    | ask c q next =>
      obtain ⟨a, rfl, first⟩ := outcomes 0 r rfl
      have later (i : Nat) (r : Reply) (hr : rs[i]? = some r) :
          ∃ a, r = .arrival a ∧ ∀ c q, reply (n + 1 + i) c q = answer c limit a := by
        have := outcomes (i + 1) r hr
        rwa [show n + (i + 1) = n + 1 + i by omega] at this
      have h : ((ask c q next).after limit (.arrival a)).left limit rs = .done result := h
      have first : reply n c q = answer c limit a := first c q
      simp only [run, first]
      simp only [after] at h
      cases outcome : answer c limit a with
      | ok content =>
        rw [outcome] at h
        exact ih h later
      | error e =>
        rw [outcome] at h
        rw [left_done] at h
        cases h
        rfl

/-- The first request that fails ends a procedure. -/
theorem LeadsTo.ends {result : Except Failure α} {before rest : List Message} {c : Command}
    {q : c.Request} {a : Exchange.Arrival Exchange.Response} {e : Exchange.Error}
    (h : p.LeadsTo limit es (.done result))
    (code : es = before ++ .request c q :: .reply (.arrival a) :: rest)
    (fails : answer c limit a = .error e) : rest = [] ∧ result = .error (.ofExchange e) := by
  obtain ⟨said, left⟩ := h
  generalize repliesOf es = rs at said left
  induction rs generalizing p es before with
  | nil =>
    rw [said] at code
    cases p <;> simp [Procedure.dialogue] at code
  | cons r rs ih =>
    cases p with
    | done result' =>
      rw [said] at code
      simp [Procedure.dialogue] at code
    | ask c' q' next =>
      rw [said, Procedure.dialogue] at code
      match before, code with
      | [], code =>
        simp only [List.nil_append, List.cons.injEq, Message.request.injEq, Message.reply.injEq]
          at code
        obtain ⟨⟨rfl, same⟩, rfl, rfl⟩ := code
        obtain rfl := eq_of_heq same
        have stops :
            (ask c' q' next).after limit (.arrival a) = .done (.error (.ofExchange e)) := by
          simp only [after, fails]
        have left : ((ask c' q' next).after limit (.arrival a)).left limit rs = .done result := left
        rw [stops, left_done] at left
        cases left
        exact ⟨by rw [stops]; simp [Procedure.dialogue], rfl⟩
      | [_], code => simp at code
      | _ :: _ :: before, code =>
        simp only [List.cons_append, List.cons.injEq] at code
        exact ih rfl code.2.2.symm left

end Procedure

end RemoteNode.Session
