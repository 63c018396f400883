import Pire2Pire.Protocol.Transport

/-! Texts on a connection, and when the peer reads them one by one.

A text that does not end in `'\n'` is read together with the one behind it. -/
namespace Pire2Pire.Protocol

open Library

/-- The text ends the line it is on. -/
def Terminated (text : CString) : Prop :=
  text.getLast? = some '\n'

instance (text : CString) : Decidable (Terminated text) :=
  inferInstanceAs (Decidable (_ = _))

/-- The message that a text stands for: the text without the `'\n'` at its end. -/
def messageOf (text : CString) : CString :=
  if Terminated text then text.dropLast else text

/-- The peer reads the messages that were sent, one line each, and then NULL. -/
def Framed (texts : List CString) : Prop :=
  DecodesTo texts.flatten (texts.map messageOf)

instance (texts : List CString) : Decidable (Framed texts) :=
  inferInstanceAs (Decidable (DecodesTo _ _))

variable {text line w v : CString} {texts lines : List CString} {stream rest : List Char}

theorem terminated_line (line : CString) : Terminated (line ++ ['\n']) := by
  simp [Terminated]

@[simp]
theorem messageOf_line (line : CString) : messageOf (line ++ ['\n']) = line := by
  simp [messageOf, terminated_line]

theorem messageOf_text (unended : ¬ Terminated text) : messageOf text = text :=
  if_neg unended

theorem text_eq (ended : Terminated text) : text = messageOf text ++ ['\n'] := by
  obtain ⟨line, rfl⟩ := List.getLast?_eq_some_iff.mp ended
  rw [messageOf_line]

/-! ### A text without its line end -/

theorem socketGetlineWithTrailer_text (nonempty : w ≠ []) (noNewline : '\n' ∉ w) (stream : List Char) :
    socketGetlineWithTrailer (w ++ stream) =
      (some (w ++ (socketGetlineWithTrailer stream).1.getD []), (socketGetlineWithTrailer stream).2) := by
  induction w with
  | nil => exact absurd rfl nonempty
  | cons c w ih =>
    simp only [List.mem_cons, not_or] at noNewline
    have differ : c ≠ '\n' := fun equal => noNewline.1 equal.symm
    -- the last byte of the text is followed by whatever the stream goes on with
    by_cases last : w = []
    · subst last
      simp [socketGetlineWithTrailer, differ]
    · simp [socketGetlineWithTrailer, differ, ih last noNewline.2]

theorem removeTrailer_text (clean : Received w) (s : List Char) :
    stringRemoveTrailer (terminated (w ++ s)) = w ++ stringRemoveTrailer (terminated s) := by
  -- none of the three cuts is made inside the text
  have noNul : terminated (w ++ s) = w ++ terminated s := cutAt_append_text clean.noNul s
  rw [noNul, stringRemoveTrailer, cutAt_append_text clean.noReturn, cutAt_append_text clean.noNewline]
  rfl

/-- What is behind such a text becomes part of its line. -/
theorem socketGetline_text (nonempty : w ≠ []) (clean : Received w) (stream : List Char) :
    socketGetline (w ++ stream) =
      (some (w ++ (socketGetline stream).1.getD []), (socketGetline stream).2) := by
  simp only [socketGetline, socketGetlineWithTrailer_text nonempty clean.noNewline, Option.map_some,
    removeTrailer_text clean]
  -- a connection that is closed behind the text gives the text alone
  cases (socketGetlineWithTrailer stream).1 with
  | none => rfl
  | some bytes => rfl

theorem decodesTo_received (decodes : DecodesTo stream lines) (member : line ∈ lines) : Received line := by
  induction lines generalizing stream with
  | nil => cases member
  | cons first lines ih =>
    obtain ⟨read, rest⟩ := decodesTo_cons_iff.mp decodes
    -- a line that was read has been cut by `string_remove_trailer`
    cases List.mem_cons.mp member with
    | inl here => exact socketGetline_received (here ▸ read)
    | inr later => exact ih rest later

/-- At the end of the connection the line end may be missing. -/
theorem decodesTo_single (nonempty : w ≠ []) (clean : Received w) : DecodesTo w [w] := by
  have read := socketGetline_text nonempty clean []
  rw [List.append_nil] at read
  rw [decodesTo_cons_iff, read]
  simp [decodesTo_nil_iff, socketGetline_nil]

/-- Two texts that are sent without a line end between them are not two lines. -/
theorem not_decodesTo_merged (nonempty : w ≠ []) (another : v ≠ []) :
    ¬ DecodesTo (w ++ (v ++ rest)) (w :: v :: lines) := by
  intro decodes
  have clean : Received w := decodesTo_received decodes (by simp)
  have clean' : Received v := decodesTo_received decodes (by simp)
  -- the first line would have to be both texts at once
  have first := (decodesTo_cons_iff.mp decodes).1
  rw [socketGetline_text nonempty clean, socketGetline_text another clean'] at first
  simp [another] at first

/-! ### Framing -/

theorem framed_terminated (ended : Terminated text) :
    Framed (text :: texts) ↔ Received (messageOf text) ∧ Framed texts := by
  obtain ⟨line, rfl⟩ := List.getLast?_eq_some_iff.mp ended
  have shape : (line ++ ['\n']) ++ texts.flatten = line ++ '\n' :: texts.flatten := by simp
  rw [Framed, List.flatten_cons, List.map_cons, messageOf_line, shape]
  -- what was read is clean, so the line end that follows is its own
  constructor
  · intro decodes
    have clean : Received line := decodesTo_received decodes List.mem_cons_self
    exact ⟨clean, (decodesTo_cons clean).mp decodes⟩
  · rintro ⟨clean, decodes⟩
    exact (decodesTo_cons clean).mpr decodes

theorem framed_unterminated (unended : ¬ Terminated text) (nonempty : ∀ t ∈ text :: texts, messageOf t ≠ []) :
    Framed (text :: texts) ↔ Received text ∧ texts = [] := by
  have message := messageOf_text unended
  have visible : text ≠ [] := by
    rw [← message]
    exact nonempty text List.mem_cons_self
  constructor
  · intro framed
    -- an open text swallows the one behind it, so there is none
    constructor
    · have clean := decodesTo_received framed (List.mem_map_of_mem List.mem_cons_self)
      rwa [message] at clean
    · cases texts with
      | nil => rfl
      | cons next texts =>
        have another : messageOf next ≠ [] := nonempty next (by simp)
        -- the bytes of the next text start with its message
        have starts : ∃ tail, next = messageOf next ++ tail := by
          by_cases ended : Terminated next
          · exact ⟨_, text_eq ended⟩
          · exact ⟨[], by rw [messageOf_text ended, List.append_nil]⟩
        obtain ⟨tail, shape⟩ := starts
        rw [Framed, List.flatten_cons, List.flatten_cons, List.map_cons, List.map_cons, message] at framed
        have merged : text ++ (next ++ texts.flatten) = text ++ (messageOf next ++ (tail ++ texts.flatten)) := by
          rw [← List.append_assoc (messageOf next), ← shape]
        rw [merged] at framed
        exact absurd framed (not_decodesTo_merged visible another)
  · rintro ⟨clean, rfl⟩
    rw [Framed, List.flatten_cons, List.flatten_nil, List.append_nil, List.map_cons, List.map_nil, message]
    exact decodesTo_single visible clean

/-- Texts are read one by one exactly if none has a byte in it that ends a line and each but the last ends
its line. -/
theorem framed_iff (nonempty : ∀ t ∈ texts, messageOf t ≠ []) :
    Framed texts ↔ (∀ t ∈ texts, Received (messageOf t)) ∧ texts.Pairwise fun t _ => Terminated t := by
  induction texts with
  | nil => simp [Framed, decodesTo_nil]
  | cons text texts ih =>
    rw [List.forall_mem_cons, List.pairwise_cons]
    -- the texts behind matter only if the first leaves its line open
    by_cases ended : Terminated text
    · rw [framed_terminated ended, ih fun t member => nonempty t (List.mem_cons_of_mem _ member)]
      simp only [ended, implies_true, true_and, and_assoc]
    · rw [framed_unterminated ended nonempty, messageOf_text ended]
      constructor
      · rintro ⟨clean, rfl⟩
        exact ⟨⟨clean, by simp⟩, by simp, .nil⟩
      · rintro ⟨⟨clean, -⟩, alone, -⟩
        refine ⟨clean, ?_⟩
        exact List.eq_nil_iff_forall_not_mem.mpr fun t member => ended (alone t member)

end Pire2Pire.Protocol
