/- SableSyntax/Proofs/Parsing/Log
   digest: The log of a text tells the functions and blocks of its program, or the fault in it. -/

import SableSyntax.Proofs.Lexing.TokenStream
import SableSyntax.Proofs.Parsing.Invariants

set_option autoImplicit false
set_option relaxedAutoImplicit false

namespace SableSyntax

section Entries

def Block.log (block : Block) : List TraceEvent := [.blockEntered block.span.start]

def Function.log (function : Function) : List TraceEvent :=
  .functionEntered function.name.name :: (function.body.map Block.log).getD []

def Program.log (program : Program) : List TraceEvent :=
  program.functions.flatMap Function.log ++ [.programRead program.functions.length]

/-- Whether entries are details only, so that they do not tell how a text ended. -/
def Details (entries : List TraceEvent) : Prop := ∀ event ∈ entries, event.level = .trace

theorem Details.nil : Details [] := List.forall_mem_nil _

theorem Details.append {first second : List TraceEvent} (before : Details first)
    (behind : Details second) : Details (first ++ second) :=
  List.forall_mem_append.2 ⟨before, behind⟩

theorem Details.flatMap {α : Type} {log : α → List TraceEvent}
    (each : ∀ value, Details (log value)) (values : List α) : Details (values.flatMap log) := by
  intro event member
  obtain ⟨value, -, entry⟩ := List.mem_flatMap.1 member
  exact each value event entry

theorem Block.details_log (block : Block) : Details block.log :=
  List.forall_mem_singleton.2 rfl

theorem details_log_of_body (body : Option Block) : Details ((body.map Block.log).getD []) := by
  cases body with
  | none => exact .nil
  | some body => exact body.details_log

theorem Function.details_log (function : Function) : Details function.log :=
  List.forall_mem_cons.2 ⟨rfl, details_log_of_body function.body⟩

end Entries

namespace Parser

variable {α β : Type}

/-- A reader leaves entries in the log behind those already there: some that go with the value that
it gives, or details only where it fails. -/
def Logs (reader : Parser α) (entries : α → List TraceEvent → Prop) : Prop :=
  ∀ state, ∃ made, (reader.step state).2.trace = state.trace ++ made ∧
    match (reader.step state).1 with
    | .ok value => entries value made
    | .error _ => Details made

def Unlogged (reader : Parser α) : Prop := ∀ entries, reader.Preserves (·.trace = entries)

theorem steady_trace (entries : List TraceEvent) : Steady (·.trace = entries) :=
  .of_steps (fun h _ => h) (fun h _ => h) (fun h _ => h) fun h _ => h

section Sequences

variable {reader : Parser α} {entries : α → List TraceEvent → Prop}
  {further : β → List TraceEvent → Prop} {go : α → Parser β}

theorem Unlogged.logs (unlogged : reader.Unlogged) : reader.Logs fun _ made => made = [] := by
  intro state
  refine ⟨[], by rw [unlogged _ state rfl, List.append_nil], ?_⟩
  split
  · rfl
  · exact .nil

theorem Logs.pure {value : α} (holds : entries value []) : Logs (pure value) entries :=
  fun state => ⟨[], (List.append_nil state.trace).symm, holds⟩

theorem Logs.throw {error : SyntaxError} : Logs (throw error : Parser α) entries :=
  fun state => ⟨[], (List.append_nil state.trace).symm, Details.nil⟩

theorem Logs.bind (logs : reader.Logs entries)
    (next : ∀ value made, entries value made →
      Details made ∧ (go value).Logs fun result more => further result (made ++ more)) :
    (reader >>= go).Logs further := by
  intro state
  obtain ⟨made, left, ends⟩ := logs state
  simp only [step, Bind.bind, EStateM.bind] at left ends ⊢
  cases read : reader state with
  | error error reached =>
    simp only [read] at left ends ⊢
    exact ⟨made, left, ends⟩
  | ok value reached =>
    simp only [read] at left ends ⊢
    obtain ⟨details, goesOn⟩ := next value made ends
    obtain ⟨more, left', ends'⟩ := goesOn reached
    simp only [step] at left' ends'
    refine ⟨made ++ more, by rw [left', left, List.append_assoc], ?_⟩
    split at ends'
    · next found => simpa only [found] using ends'
    · next found => simpa only [found] using details.append ends'

theorem Unlogged.bind_logs (unlogged : reader.Unlogged)
    (next : ∀ value, (go value).Logs further) : (reader >>= go).Logs further := by
  refine unlogged.logs.bind ?_
  rintro value _ rfl
  exact ⟨.nil, next value⟩

theorem record_bind_logs {event : TraceEvent} {go : Unit → Parser β}
    (detail : event.level = .trace)
    (next : (go ()).Logs fun result more => further result (event :: more)) :
    (record event >>= go).Logs further := by
  have recorded : (record event).Logs fun _ made => made = [event] := fun state => ⟨_, rfl, rfl⟩
  refine recorded.bind ?_
  rintro _ _ rfl
  exact ⟨List.forall_mem_singleton.2 detail, next⟩

theorem repeatWhile_logs {test : Token → Bool} {log : α → List TraceEvent}
    (details : ∀ value, Details (log value))
    (item : reader.Logs fun value made => made = log value) :
    (repeatWhile test reader).Logs fun values made => made = values.flatMap log := by
  have bounded (bound : Nat) :
      (repeatBounded test reader bound).Logs fun values made => made = values.flatMap log := by
    induction bound with
    | zero => exact .pure rfl
    | succ bound ih =>
      refine Unlogged.bind_logs (fun entries => (steady_trace entries).peek) fun token => ?_
      split
      · refine item.bind ?_
        rintro first _ rfl
        refine ⟨details first, ih.bind ?_⟩
        rintro rest _ rfl
        exact ⟨.flatMap details _, .pure (by rw [List.append_nil, List.flatMap_cons])⟩
      · exact .pure rfl
  exact fun state => bounded _ state

end Sequences

section Programs

theorem block_logs : block.Logs fun block made => made = block.log := by
  refine Unlogged.bind_logs (fun _ => (steady_trace _).expect _ _) fun opening => ?_
  refine record_bind_logs rfl (Unlogged.bind_logs ?_ fun statements => ?_)
  · exact fun entries => .repeatWhile (steady_trace entries).peek (steady_trace entries).statement
  · exact Unlogged.bind_logs (fun _ => (steady_trace _).expect _ _) fun close => .pure rfl

theorem functionBody_logs :
    functionBody.Logs fun body made => made = (body.1.map Block.log).getD [] := by
  refine Unlogged.bind_logs (fun _ => (steady_trace _).peek) fun token => ?_
  split
  · refine block_logs.bind ?_
    rintro body _ rfl
    exact ⟨body.details_log, .pure (List.append_nil _)⟩
  · exact Unlogged.bind_logs (fun _ => (steady_trace _).advance) fun _ => .pure rfl
  · exact .throw

theorem function_logs : function.Logs fun function made => made = function.log := by
  refine Unlogged.bind_logs (fun _ => (steady_trace _).expect _ _) fun keyword => ?_
  refine Unlogged.bind_logs (fun _ => (steady_trace _).identifier _) fun name => ?_
  refine record_bind_logs rfl ?_
  refine Unlogged.bind_logs (fun _ => (steady_trace _).expect _ _) fun _ => ?_
  refine Unlogged.bind_logs (fun _ => (steady_trace _).parameterList) fun parameters => ?_
  refine Unlogged.bind_logs (fun _ => (steady_trace _).expect _ _) fun _ => ?_
  refine Unlogged.bind_logs (fun _ => (steady_trace _).expect _ _) fun _ => ?_
  refine Unlogged.bind_logs (fun _ => (steady_trace _).typeExpr) fun returnType => ?_
  refine functionBody_logs.bind ?_
  rintro ⟨body, last⟩ _ rfl
  exact ⟨details_log_of_body body, .pure (by rw [List.append_nil, Function.log])⟩

theorem program_logs : program.Logs fun program made => made = program.log := by
  refine Unlogged.bind_logs (fun _ => (steady_trace _).peek) fun first => ?_
  refine (repeatWhile_logs Function.details_log function_logs).bind ?_
  rintro functions _ rfl
  refine ⟨.flatMap Function.details_log functions, ?_⟩
  refine Unlogged.bind_logs (fun _ => (steady_trace _).peek) fun next => ?_
  split
  · rw [operations_programSpan]
    exact fun state => ⟨_, rfl, rfl⟩
  · exact .throw

end Programs

end Parser

/-- The log of a program holds the entries of its functions in their order, and how many they
are. -/
theorem parseTrace_of_ok {source : String} {program : Program}
    (accepted : parse source = .ok program) : parseTrace source = program.log := by
  obtain ⟨made, left, ends⟩ := Parser.program_logs (.ofText source)
  have read : (Parser.program.step (.ofText source)).1 = .ok program := accepted
  rw [read] at ends
  exact left.trans ends

theorem details_parseTrace_of_error {source : String} {error : SyntaxError}
    (failed : parse source = .error error) : Details (parseTrace source) := by
  obtain ⟨made, left, ends⟩ := Parser.program_logs (.ofText source)
  have stopped : (Parser.program.step (.ofText source)).1 = .error error := failed
  rw [stopped] at ends
  have all : parseTrace source = made := left
  exact all ▸ ends

/-- A log that does not show details tells of programs only, and of each one how many functions it
has. -/
theorem filter_isShown_debug_parseTrace (source : String) :
    (parseTrace source).filter (·.isShown .debug) =
      match parse source with
      | .ok program => [.programRead program.functions.length]
      | .error _ => [] := by
  have hidden {entries : List TraceEvent} (details : Details entries) :
      entries.filter (·.isShown .debug) = [] := by
    refine List.filter_eq_nil_iff.2 fun event member => ?_
    simp [TraceEvent.isShown, details event member]
  cases outcome : parse source with
  | ok program =>
    rw [parseTrace_of_ok outcome, Program.log, List.filter_append,
      hidden (.flatMap Function.details_log _)]
    rfl
  | error error => exact hidden (details_parseTrace_of_error outcome)

/-- Splitting a text into tokens leaves the first fault in the log, and nothing where there is
none. -/
theorem tokenizeTrace_eq (source : String) :
    tokenizeTrace source =
      match tokenize source with
      | .ok _ => []
      | .error error => [.lexingStopped error] := by
  rw [tokenizeTrace, Lexer.drain_ofText]
  have silent (tokens : List Token) :
      (tokens.map Except.ok).flatMap Lexer.trace = [] := by
    rw [List.flatMap_eq_nil_iff]
    intro result member
    obtain ⟨token, -, rfl⟩ := List.mem_map.1 member
    rfl
  cases lexed : tokenize source with
  | ok tokens =>
    rw [untilFault_eq_map_ok_iff.2 (tokenize_eq_ok_iff.1 lexed)]
    exact silent tokens
  | error error =>
    obtain ⟨tokens, rest, results⟩ := tokenize_eq_error_iff.1 lexed
    rw [results, untilFault_map_ok_append, List.flatMap_append, silent]
    rfl

end SableSyntax
