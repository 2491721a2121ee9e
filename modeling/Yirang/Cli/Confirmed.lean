/-
# `Yirang.Cli.Confirmed` — what is destroyed was named twice

A command that destroys something is ordered only when its name was given a
second time: as an option, or as the answer to a question that says which
devices it is for.  This is a matter of what was said before the request, so
a run is followed with all its calls and their answers.

    Event                a call, and its answer
    Session.Confirmed    the name was given again, for this scope
    Session.Ordered      what a request to the API may be
    main_orders          no other request is made
-/
import Yirang.Cli.Console
import Yirang.Effect.Threads

namespace Yirang.DeployCli

open Effect

/-! ## What was said -/

/-- A call that was made, and its answer. -/
structure Event where
  o : Console.Op
  answer : o.Res

/-- It is a request for a command. -/
def Console.Op.Orders (o : Console.Op) : Prop := ∃ body, o = .work (.post kCommands body)

/-- Nothing has been ordered. -/
def Quiet (events : List Event) : Prop := ∀ event ∈ events, ¬ event.o.Orders

theorem Quiet.cons {events : List Event} (h : Quiet events) {o : Console.Op} {answer : o.Res}
    (ho : ¬ o.Orders) : Quiet (⟨o, answer⟩ :: events) := by
  intro event he
  rcases List.mem_cons.mp he with rfl | he
  · exact ho
  · exact h event he

namespace Session

variable (session : Session)

/-- The name was given with the call; or the operator was asked on a terminal
about this scope, and has answered with the name. -/
def Confirmed (name : String) (events : List Event) : Prop :=
  ∃ confirmation, session.confirmation = some confirmation ∧
    (confirmation.providedToken = name ∨
      (confirmation.providedToken = "" ∧ confirmation.interactive = true ∧
        ∃ answer older, trimmed answer = name ∧
          events = ⟨.getline, some answer⟩ ::
            ⟨.prompt (question name (scopeOf session.settings.targetGroup)), ()⟩ :: older))

/-- Where the settings could not be read, the devices were named with the
call. -/
def Scoped : Prop := session.settings.loadWarning = none ∨ session.settings.targetGroup ≠ ""

/-- The body is the order of a command that was given as the words, and that
was confirmed, if it destroys something. -/
def Ordered (arguments : List String) (body : String) (events : List Event) : Prop :=
  ∃ name rest payload, arguments = name :: rest ∧ name ∈ agentCommands ∧
    session.payload name rest = .ok payload ∧
    body = session.codec.serialize (order name session.settings.targetGroup payload) ∧
    (name ∈ destructiveCommands → session.Confirmed name events ∧ session.Scoped)

/-- The first request for a command, and it is the one that was ordered. -/
def Passes (arguments : List String) (events : List Event) (o : Console.Op) : Prop :=
  ∀ body, o = .work (.post kCommands body) →
    Quiet events ∧ session.Ordered arguments body events

/-- A run is followed with all that was said. -/
def listener (arguments : List String) : Monitor console (List Event) where
  note o r events := ⟨o, r⟩ :: events
  passes events o := session.Passes arguments events o
  expects _ _ := True

end Session

/-! ## No other request -/

section Follows

variable {session : Session} {words : List String} {events : List Event}
  {α : Type}

theorem passes_of_not_orders {o : Console.Op} (h : ¬ o.Orders) :
    session.Passes words events o := by
  intro body ho
  exact absurd ⟨body, ho⟩ h

/-- A program that asks for no command. -/
theorem follows_of_uses {p : Program console Unit α} (hp : Uses (fun o => ¬ Console.Op.Orders o) p) :
    (session.listener words).Follows p (fun _ _ => True) () events := by
  refine wp_of_uses (R := fun _ => True) ?_ ?_ hp trivial
  · exact fun _ _ _ _ _ _ => trivial
  · exact fun _ _ _ ho _ => passes_of_not_orders ho

theorem prompt_not_orders {text : String} : ¬ Console.Op.Orders (.prompt text) := by
  rintro ⟨body, h⟩
  cases h

theorem getline_not_orders : ¬ Console.Op.Orders .getline := by
  rintro ⟨body, h⟩
  cases h

theorem accepted_ok {name : String} {said : Option String} (h : accepted name said = .ok ()) :
    ∃ answer, said = some answer ∧ trimmed answer = name := by
  cases said with
  | none => cases h
  | some answer =>
      refine ⟨answer, rfl, ?_⟩
      by_contra hne
      rw [accepted, if_neg hne] at h
      cases h

/-- After the confirmation nothing has been ordered yet, and the name has been
given again. -/
theorem require_follows {confirmation : Confirmation} {name : String}
    (hc : session.confirmation = some confirmation) (hq : Quiet events) :
    (session.listener words).Follows
      (confirmation.require name (scopeOf session.settings.targetGroup)).run
      (fun r events => Quiet events ∧ (r = .ok () → session.Confirmed name events)) () events := by
  unfold Confirmation.require
  split
  · refine wp_require.mpr ?_
    split
    · rename_i ht
      exact ⟨hq, fun _ => ⟨confirmation, hc, Or.inl (of_decide_eq_true ht)⟩⟩
    · exact ⟨hq, fun h => (by cases h)⟩
  · rename_i ht
    refine wp_require_seq.mpr ?_
    split
    · rename_i hi
      refine wp_seq.mpr ⟨passes_of_not_orders prompt_not_orders, fun c₁ _ => ?_⟩
      refine wp_seq.mpr ⟨passes_of_not_orders getline_not_orders, fun c₂ _ => ?_⟩
      refine wp_conclude.mpr ⟨(hq.cons prompt_not_orders).cons getline_not_orders, fun h => ?_⟩
      obtain ⟨answer, ha, hname⟩ := accepted_ok h
      refine ⟨confirmation, hc, Or.inr ⟨by simpa using ht, hi, answer, events, hname, ?_⟩⟩
      rw [← ha]
      rfl
    · exact ⟨hq, fun h => (by cases h)⟩

theorem confirm_follows {name : String} (hq : Quiet events) :
    (session.listener words).Follows (session.confirm name).run
      (fun r events => Quiet events ∧ (r = .ok () → name ∈ destructiveCommands →
        session.Confirmed name events ∧ session.Scoped)) () events := by
  unfold Session.confirm
  dsimp only
  split
  · split
    · exact ⟨hq, fun h => (by cases h)⟩
    · rename_i hscope
      have hscoped : session.Scoped := by
        cases hw : session.settings.loadWarning with
        | none => exact Or.inl hw
        | some warning => exact Or.inr fun hg => hscope warning hw hg
      split
      · exact ⟨hq, fun h => (by cases h)⟩
      · rename_i confirmation hc
        refine wp_conseq (require_follows hc hq) ?_
        rintro r - events' ⟨hq', hr⟩
        exact ⟨hq', fun h _ => ⟨hr h, hscoped⟩⟩
  · rename_i hname
    exact ⟨hq, fun _ h => absurd (List.contains_iff_mem.mpr h) hname⟩

/-- A request is ordered as the words say. -/
theorem command_follows :
    (session.listener words).Follows (session.command words).run (fun _ _ => True) () [] := by
  refine wp_seq.mpr (wp_conclude.mpr ?_)
  cases session.settings.validateRequired with
  | error why => trivial
  | ok _ =>
      cases words with
      | nil => trivial
      | cons name rest =>
          refine wp_require_seq.mpr ?_
          split
          · rename_i hname
            refine wp_seq_of (confirm_follows fun _ h => by cases h) ?_ fun _ _ _ _ => trivial
            rintro u - events ⟨hquiet, hconfirmed⟩
            refine wp_seq.mpr (wp_conclude.mpr ?_)
            cases hpayload : session.payload name rest with
            | error why => trivial
            | ok payload =>
                refine wp_seq.mpr ⟨?_, fun c _ => wp_seq.mpr (wp_conclude.mpr ?_)⟩
                · intro body ho
                  cases ho
                  exact ⟨hquiet, name, rest, payload, rfl, List.contains_iff_mem.mp hname,
                    hpayload, rfl, hconfirmed rfl⟩
                · generalize (((session.listener (name :: rest)).answers c
                    (.work (.post kCommands _)) events).1 : Except String RestResponse) = posted
                  cases posted with
                  | error why => trivial
                  | ok response =>
                      refine wp_require_seq.mpr ?_
                      split
                      · exact ⟨passes_of_not_orders (by rintro ⟨_, h⟩; cases h), fun _ _ => trivial⟩
                      · trivial
          · trivial

/-! ### The other commands -/

/-- A deploy makes no request for a command. -/
def Deploys (o : DeployCli.Op) : Prop := ∀ body, o ≠ .post kCommands body

theorem entry_uses {claimed : List String} {source : String} :
    Uses Deploys (Release.entry claimed source).run := by
  refine Uses.seq (Uses.ask fun _ h => by cases h) fun _ => Uses.seq Uses.require fun _ => ?_
  refine Uses.seq (Uses.ask fun _ h => by cases h) fun _ => Uses.seq Uses.require fun _ => ?_
  refine Uses.seq Uses.require fun _ => ?_
  refine Uses.seq (Uses.ask fun _ h => by cases h) fun _ => Uses.seq Uses.conclude fun _ => ?_
  refine Uses.seq (Uses.ask fun _ h => by cases h) fun _ => Uses.seq Uses.conclude fun _ => ?_
  trivial

theorem entries_uses :
    ∀ {sources claimed : List String}, Uses Deploys (Release.entries sources claimed).run
  | [], _ => trivial
  | _ :: _, _ =>
      Uses.seq entry_uses fun _ => Uses.seq entries_uses fun _ => trivial

theorem uploadAll_uses {releaseId : String} :
    ∀ {es : List Release.ArtifactEntry}, Uses Deploys (uploadAll releaseId es).run
  | [] => trivial
  | _ :: _ => by
      refine Uses.seq Uses.conclude fun _ => Uses.seq (Uses.ask fun _ h => by cases h) fun _ => ?_
      exact Uses.seq Uses.conclude fun _ => uploadAll_uses

theorem deploy_uses (c : Commands) : Uses Deploys (DeployCli.deploy c).run := by
  refine Uses.seq Uses.conclude fun _ => Uses.seq Uses.require fun _ => ?_
  refine Uses.seq (Uses.ask fun _ h => by cases h) fun now => ?_
  refine Uses.seq ?_ fun manifest => Uses.seq uploadAll_uses fun _ => ?_
  · refine Uses.seq Uses.require fun _ => Uses.seq Uses.require fun _ => ?_
    exact Uses.seq entries_uses fun _ => trivial
  · have hpath : kDeployments ≠ kCommands := by decide
    refine Uses.seq (Uses.ask fun _ h => ?_) fun _ => Uses.seq Uses.conclude fun _ => ?_
    · exact hpath (DeployCli.Op.post.inj h).1
    · exact Uses.seq Uses.require fun _ => Uses.ask fun _ h => by cases h

theorem results_uses : Uses (fun o => ¬ Console.Op.Orders o) session.results.run := by
  refine Uses.seq Uses.conclude fun _ => ?_
  refine Uses.seq (Uses.ask (by rintro ⟨_, h⟩; cases h)) fun _ => Uses.seq Uses.conclude fun _ => ?_
  exact Uses.seq Uses.require fun _ => Uses.ask (by rintro ⟨_, h⟩; cases h)

theorem run_follows {name : String} {arguments : List String}
    (hw : name = "command" → arguments = words) :
    (session.listener words).Follows (session.run name arguments).run (fun _ _ => True) () [] := by
  unfold Session.run
  split
  · refine follows_of_uses (Uses.embed ?_ (deploy_uses _))
    rintro o ho ⟨body, h⟩
    cases h
    exact ho body rfl
  · split
    · rename_i hname
      rw [hw hname]
      exact command_follows
    · split
      · exact follows_of_uses results_uses
      · trivial

end Follows

/-! ## The whole program -/

/-- What the program is, after its settings are read. -/
def session (codec : Codec) (invocation : Invocation) (file : ConfigFile) (interactive : Bool) :
    Session where
  settings := settings codec invocation file
  codec := codec
  store := true
  confirmation := some ⟨(settings codec invocation file).confirmToken, interactive⟩

/-- The words of a command of the agents. -/
def commandWords : List String → List String
  | [] => []
  | name :: arguments => if name = "command" then arguments else []

theorem main_follows {codec : Codec} {invocation : Invocation} {file : ConfigFile}
    {interactive : Bool} :
    ((session codec invocation file interactive).listener
      (commandWords (positionalArguments invocation.argv))).Follows
      (main codec invocation file interactive).run (fun _ _ => True) () [] := by
  unfold main
  dsimp only
  split
  · exact ⟨passes_of_not_orders (by rintro ⟨_, h⟩; cases h), fun _ _ => trivial⟩
  · split
    · exact ⟨passes_of_not_orders (by rintro ⟨_, h⟩; cases h), fun _ _ => trivial⟩
    · split
      · exact ⟨passes_of_not_orders (by rintro ⟨_, h⟩; cases h), fun _ _ => trivial⟩
      · rename_i name arguments hw
        refine run_follows fun hname => ?_
        rw [hw]
        exact (if_pos hname).symm

/-- Any answers, all of them kept. -/
def heard : Answers console (List Event) ((o : Console.Op) → o.Res) :=
  fun c o events => (c o, ⟨o, c o⟩ :: events)

/-- Whatever was answered before: the program asks for a command once, and it
is the one that was ordered. -/
theorem main_orders {codec : Codec} {invocation : Invocation} {file : ConfigFile}
    {interactive : Bool} {text : String} {events : List Event}
    (h : Exec heard (fun _ _ _ => True) (main codec invocation file interactive).run () []
      (.before () (.work (.post kCommands text))) events) :
    Quiet events ∧ (session codec invocation file interactive).Ordered
      (commandWords (positionalArguments invocation.argv)) text events := by
  have hpass : (session codec invocation file interactive).Passes
      (commandWords (positionalArguments invocation.argv)) events (.work (.post kCommands text)) :=
    wp_before h main_follows
  exact hpass text rfl

theorem commandWords_readable {invocation : Invocation} :
    ∀ word ∈ commandWords (positionalArguments invocation.argv), '\x00' ∉ word.toList := by
  intro word hw
  refine invocation.readable word ((positionalArguments_sublist _).subset ?_)
  generalize positionalArguments invocation.argv = words at hw ⊢
  cases words with
  | nil => cases hw
  | cons name arguments =>
      change word ∈ (if name = "command" then arguments else []) at hw
      split at hw
      · exact List.mem_cons_of_mem _ hw
      · cases hw

end Yirang.DeployCli
