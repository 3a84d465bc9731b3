import CodeRs.Chat.Sse

/-!
# Turns

What the loop of `process_chat_sse` sends while a turn goes on, and how the
turn ends.  The chunks before the end only send deltas; their texts add up to
the texts of the state.
-/

namespace CodeRs.Chat

/-! ## Reading a turn -/

inductive TurnEnd where
  | finish (reason : String)
  | done
  | closed
  | failed (error : StreamEnd)
  deriving DecidableEq

variable (fromStr : Text → Option Json) (requestId : String)

/-- The chunks of a turn, with the last one, and how the turn ends. -/
def readTurn : List Text → StreamEnd → List Json × TurnEnd
  | [], .closed => ([], .closed)
  | [], error => ([], .failed error)
  | data :: rest, ending =>
      let data := Text.trim data
      if data = [] then readTurn rest ending
      else if data = "[DONE]".toList ∨ data = "DONE".toList then ([], .done)
      else
        match fromStr data with
        | none => readTurn rest ending
        | some chunk =>
            match (choiceOf chunk).bind finishReasonOf with
            | some reason => ([chunk], .finish reason)
            | none =>
                let later := readTurn rest ending
                (chunk :: later.1, later.2)

def ChatState.endTurn (s : ChatState) (requestId : String) : TurnEnd → ChatState
  | .finish reason => s.finish reason
  | .done => s.flushAndComplete
  | .closed => s.flushAndComplete
  | .failed (.transport error) =>
      s.sendError ⟨"[transport] " ++ error, some requestId⟩
  | .failed _ => s.sendError ⟨"[idle] timeout waiting for SSE", some requestId⟩

theorem processFrom_eq (s : ChatState) (datas : List Text)
    (ending : StreamEnd) :
    processFrom fromStr requestId s datas ending =
      ((readTurn fromStr datas ending).1.foldl ChatState.handleChunk s).endTurn
        requestId
        (readTurn fromStr datas ending).2 := by
  induction datas generalizing s with
  | nil => cases ending <;> rfl
  | cons data rest ih =>
      rw [processFrom, readTurn]
      split
      · exact ih s
      · split
        · rfl
        · cases fromStr (Text.trim data) with
          | none => exact ih s
          | some chunk =>
              cases hreason : (choiceOf chunk).bind finishReasonOf with
              | some reason => simp [hreason, ChatState.endTurn]
              | none =>
                  simp only [hreason, List.foldl_cons]
                  exact ih _

/-! ## Chunks -/

def chunkText (chunk : Json) : Text := (choiceOf chunk).elim [] contentOf

def chunkReasoning (chunk : Json) : Text :=
  (choiceOf chunk).elim [] fun choice =>
    deltaReasoning choice ++ messageReasoning choice

def chunkToolCalls (chunk : Json) : List Json :=
  (choiceOf chunk).elim [] toolCallsOf

/-- An event that is sent before a turn ends. -/
def IsEarly : StreamItem → Prop
  | .ok (.created ..) => True
  | .ok (.outputTextDelta ..) => True
  | .ok (.reasoningContentDelta ..) => True
  | _ => False

/-- From one state to another, only early events were sent, with these texts. -/
structure Progress (s s' : ChatState) (text reasoning : Text) : Prop where
  sent : ∃ early, s'.sent = s.sent ++ early ∧ (∀ event ∈ early, IsEarly event) ∧
    early.flatMap textDelta = text ∧ early.flatMap reasoningDelta = reasoning
  assistantText : s'.assistantText = s.assistantText ++ text
  reasoningText : s'.reasoningText = s.reasoningText ++ reasoning

namespace Progress

variable {s s' s'' : ChatState} {text text' reasoning reasoning' : Text}

theorem of_same (hsent : s'.sent = s.sent)
    (htext : s'.assistantText = s.assistantText)
    (hreasoning : s'.reasoningText = s.reasoningText) : Progress s s' [] [] :=
  ⟨⟨[], by simp [hsent], by simp, rfl, rfl⟩,
    by simp [htext], by simp [hreasoning]⟩

theorem trans (h : Progress s s' text reasoning)
    (h' : Progress s' s'' text' reasoning') :
    Progress s s'' (text ++ text') (reasoning ++ reasoning') := by
  obtain ⟨early, hsent, hearly, htext, hreasoning⟩ := h.sent
  obtain ⟨early', hsent', hearly', htext', hreasoning'⟩ := h'.sent
  refine ⟨⟨early ++ early', ?_, ?_, ?_, ?_⟩, ?_, ?_⟩
  · rw [hsent', hsent, List.append_assoc]
  · intro event hevent
    obtain h | h := List.mem_append.1 hevent
    · exact hearly event h
    · exact hearly' event h
  · rw [List.flatMap_append, htext, htext']
  · rw [List.flatMap_append, hreasoning, hreasoning']
  · rw [h'.assistantText, h.assistantText, List.append_assoc]
  · rw [h'.reasoningText, h.reasoningText, List.append_assoc]

end Progress

namespace ChatState

variable (s : ChatState)

theorem progress_noteResponse (chunk : Json) :
    Progress s (s.noteResponse chunk) [] [] := by
  rw [noteResponse]
  split
  · exact ⟨⟨[_], rfl, by simp [IsEarly], rfl, rfl⟩,
      by simp [send], by simp [send]⟩
  · exact .of_same rfl rfl rfl

theorem progress_noteItemId (value : Json) :
    Progress s (s.noteItemId value) [] [] :=
  .of_same rfl rfl rfl

theorem progress_pushText (content : Text) :
    Progress s (s.pushText content) content [] := by
  rw [pushText]
  split
  · rename_i h
    subst h
    exact .of_same rfl rfl rfl
  · exact ⟨⟨[_], rfl, by simp [IsEarly], by simp [textDelta], rfl⟩, rfl,
      by simp [send]⟩

theorem progress_pushReasoning (reasoning : Text) :
    Progress s (s.pushReasoning reasoning) [] reasoning := by
  rw [pushReasoning]
  split
  · rename_i h
    subst h
    exact .of_same rfl rfl rfl
  · exact ⟨⟨[_], rfl, by simp [IsEarly], rfl, by simp [reasoningDelta]⟩,
      by simp [send], rfl⟩

theorem progress_noteToolCalls (toolCalls : List Json) :
    Progress s (s.noteToolCalls toolCalls) [] [] := by
  rw [noteToolCalls]
  split
  · exact .of_same rfl rfl rfl
  · exact .of_same rfl rfl rfl

theorem progress_handleChunk (chunk : Json) :
    Progress s (s.handleChunk chunk) (chunkText chunk)
      (chunkReasoning chunk) := by
  have hnoted :=
    (s.progress_noteResponse chunk).trans (progress_noteItemId _ chunk)
  rw [handleChunk, chunkText, chunkReasoning]
  cases choiceOf chunk with
  | none => exact hnoted
  | some choice =>
      have hchoice := ((((hnoted.trans (progress_noteItemId _ choice)).trans
        (progress_pushText _ (contentOf choice))).trans
        (progress_pushReasoning _ (deltaReasoning choice))).trans
        (progress_pushReasoning _ (messageReasoning choice))).trans
        (progress_noteToolCalls _ (toolCallsOf choice))
      simpa [handleChoice] using hchoice

theorem progress_handleChunks (chunks : List Json) :
    Progress s (chunks.foldl handleChunk s) (chunks.flatMap chunkText)
      (chunks.flatMap chunkReasoning) := by
  induction chunks generalizing s with
  | nil => exact .of_same rfl rfl rfl
  | cons chunk rest ih => exact (s.progress_handleChunk chunk).trans (ih _)

/-- A chunk adds its first fragment to the function call. -/
theorem fnCallState_handleChunk (chunk : Json) :
    (s.handleChunk chunk).fnCallState =
      (chunkToolCalls chunk).head?.elim s.fnCallState s.fnCallState.note := by
  have hnoted : (s.noteResponse chunk).fnCallState = s.fnCallState := by
    rw [noteResponse]
    split <;> rfl
  have hpushText : ∀ (s : ChatState) (content : Text),
      (s.pushText content).fnCallState = s.fnCallState := by
    intro s content
    rw [pushText]
    split <;> rfl
  have hpushReasoning : ∀ (s : ChatState) (reasoning : Text),
      (s.pushReasoning reasoning).fnCallState = s.fnCallState := by
    intro s reasoning
    rw [pushReasoning]
    split <;> rfl
  rw [handleChunk, chunkToolCalls]
  cases choiceOf chunk with
  | none => exact hnoted
  | some choice =>
      simp only [handleChoice, noteToolCalls, Option.elim_some]
      cases (toolCallsOf choice).head? with
      | none =>
          simp only [hpushReasoning, hpushText, noteItemId, hnoted,
            Option.elim_none]
      | some toolCall =>
          simp only [hpushReasoning, hpushText, noteItemId, hnoted,
            Option.elim_some]

/-- The first fragments of all chunks make up the function call. -/
theorem fnCallState_handleChunks (chunks : List Json) :
    (chunks.foldl handleChunk s).fnCallState =
      (chunks.filterMap fun chunk => (chunkToolCalls chunk).head?).foldl
        FunctionCallState.note s.fnCallState := by
  induction chunks generalizing s with
  | nil => rfl
  | cons chunk rest ih =>
      rw [List.foldl_cons, ih, fnCallState_handleChunk, List.filterMap_cons]
      cases (chunkToolCalls chunk).head? <;> rfl

end ChatState

end CodeRs.Chat
