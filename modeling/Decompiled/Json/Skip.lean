import Decompiled.Json.Number

/-!
# Passing over values

A value that nobody asked for is passed over, whatever its depth: the lists and
objects that are open are kept in a list, the innermost first, so no depth is
too great.

* `length_skipStart_lt`, `length_skipSeparator_lt`: every turn uses up text.
* `length_skipValue_lt`: so does a whole value.
-/

namespace Decompiled.Json

/-- What holds other values. -/
inductive Container where
  | list
  | object
  deriving DecidableEq

namespace Container

/-- The byte that closes a container. -/
def closing : Container → UInt8
  | list => byte ']'
  | object => byte '\x7d'

/-- The cause when the text ends in a container. -/
def atEnd : Container → Cause
  | list => .endInList
  | object => .endInObject

/-- The cause when a value in a container is followed by something else than a
comma or its end. -/
def afterValue : Container → Cause
  | list => .expectedListEnd
  | object => .expectedObjectEnd

end Container

/-- Read the colon between a key and its value. -/
def readColon (text : List UInt8) : Except Fault (List UInt8) :=
  match skipSpace text with
  | [] => .error (.beyond .endInObject [])
  | b :: rest =>
      if b = byte ':' then .ok rest else .error (.beyond .expectedColon (b :: rest))

/-- Pass over a key and the colon behind it. -/
def skipKey (text : List UInt8) : Except Fault (List UInt8) :=
  match skipSpace text with
  | [] => .error (.beyond .endInObject [])
  | b :: rest =>
      if b = byte '"' then do
        let rest ← skipString rest
        readColon rest
      else .error (.beyond .expectedKey (b :: rest))

/-- Pass over what comes before the first value of a container. Answers whether
there is one, behind its key in an object, or the container is closed. -/
def skipOpening (container : Container) (text : List UInt8) :
    Except Fault (Option Container × List UInt8) :=
  match skipSpace text with
  | [] => .error (.beyond container.atEnd [])
  | b :: rest =>
      if b = container.closing then .ok (none, rest)
      else
        match container with
        | .list => .ok (some .list, b :: rest)
        | .object => do
            let rest ← skipKey (b :: rest)
            .ok (some .object, rest)

/-- Pass over a value without parts, or over the opening of a container.
Answers with the container if a value of it comes next. -/
def skipStart (text : List UInt8) : Except Fault (Option Container × List UInt8) :=
  match skipSpace text with
  | [] => .error (.beyond .endInValue [])
  | b :: rest =>
      let plain (outcome : Except Fault (List UInt8)) :
          Except Fault (Option Container × List UInt8) :=
        outcome.map fun rest => (none, rest)
      if b = byte 'n' then plain (readWord (bytesOf "ull") rest)
      else if b = byte 't' then plain (readWord (bytesOf "rue") rest)
      else if b = byte 'f' then plain (readWord (bytesOf "alse") rest)
      else if b = byte '-' then plain (skipNumber rest)
      else if isDigit b then plain (skipNumber (b :: rest))
      else if b = byte '"' then plain (skipString rest)
      else if b = byte '[' then skipOpening .list rest
      else if b = byte '\x7b' then skipOpening .object rest
      else .error (.beyond .expectedValue (b :: rest))

/-- Pass over what follows a value in a container. Answers whether another
value comes next, behind its key in an object, or the container is closed. -/
def skipSeparator (container : Container) (text : List UInt8) :
    Except Fault (Bool × List UInt8) :=
  match skipSpace text with
  | [] => .error (.beyond container.atEnd [])
  | b :: rest =>
      if b = byte ',' then
        match container with
        | .list => .ok (true, rest)
        | .object => do
            let rest ← skipKey rest
            .ok (true, rest)
      else if b = container.closing then .ok (false, rest)
      else .error (.beyond container.afterValue (b :: rest))

/-! ## Every turn uses up text -/

theorem length_readColon_lt {text rest : List UInt8} (h : readColon text = .ok rest) :
    rest.length < text.length := by
  have hspace := length_skipSpace_le text
  unfold readColon at h
  split at h
  · simp at h
  · rename_i b t heq
    rw [heq] at hspace
    split at h
    · simp only [Except.ok.injEq] at h
      simp only [← h, List.length_cons] at hspace ⊢
      omega
    · simp at h

theorem length_skipKey_lt {text rest : List UInt8} (h : skipKey text = .ok rest) :
    rest.length < text.length := by
  have hspace := length_skipSpace_le text
  unfold skipKey at h
  split at h
  · simp at h
  · rename_i b t heq
    rw [heq] at hspace
    split at h
    · obtain ⟨t', hstring, hcolon⟩ := bind_eq_ok.mp h
      have := length_skipString_lt hstring
      have := length_readColon_lt hcolon
      simp only [List.length_cons] at hspace
      omega
    · simp at h

theorem length_skipOpening_le {container : Container} {next : Option Container}
    {text rest : List UInt8} (h : skipOpening container text = .ok (next, rest)) :
    rest.length ≤ text.length := by
  have hspace := length_skipSpace_le text
  unfold skipOpening at h
  split at h
  · simp at h
  · rename_i b t heq
    rw [heq] at hspace
    simp only [List.length_cons] at hspace
    split at h
    · simp only [Except.ok.injEq, Prod.mk.injEq] at h
      simp only [← h.2]
      omega
    · split at h
      · simp only [Except.ok.injEq, Prod.mk.injEq] at h
        simp only [← h.2, List.length_cons]
        omega
      · simp only [bind_eq_ok, Except.ok.injEq, Prod.mk.injEq] at h
        obtain ⟨t', hkey, -, rfl⟩ := h
        have := length_skipKey_lt hkey
        simp only [List.length_cons] at this
        omega

theorem map_eq_ok {α β : Type} {x : Except Fault α} {f : α → β} {b : β} :
    x.map f = .ok b ↔ ∃ a, x = .ok a ∧ f a = b := by
  rcases x with _ | _ <;> simp [Except.map]

/-- The start of a value uses up text. -/
theorem length_skipStart_lt {next : Option Container} {text rest : List UInt8}
    (h : skipStart text = .ok (next, rest)) : rest.length < text.length := by
  have hspace := length_skipSpace_le text
  unfold skipStart at h
  split at h
  · simp at h
  · rename_i b t heq
    rw [heq] at hspace
    simp only [List.length_cons] at hspace
    have plain : ∀ {outcome : Except Fault (List UInt8)},
        outcome.map (fun rest => ((none : Option Container), rest)) = .ok (next, rest) →
          outcome = .ok rest := by
      intro outcome hmap
      obtain ⟨r, hr, heq⟩ := map_eq_ok.mp hmap
      simp only [Prod.mk.injEq] at heq
      rw [hr, heq.2]
    simp only at h
    split at h
    · have := length_readWord_le (plain h)
      omega
    · split at h
      · have := length_readWord_le (plain h)
        omega
      · split at h
        · have := length_readWord_le (plain h)
          omega
        · split at h
          · have := length_skipNumber_lt (plain h)
            omega
          · split at h
            · have := length_skipNumber_lt (plain h)
              simp only [List.length_cons] at this
              omega
            · split at h
              · have := length_skipString_lt (plain h)
                omega
              · split at h
                · have := length_skipOpening_le h
                  omega
                · split at h
                  · have := length_skipOpening_le h
                    omega
                  · simp at h

/-- What follows a value in a container uses up text. -/
theorem length_skipSeparator_lt {container : Container} {more : Bool}
    {text rest : List UInt8} (h : skipSeparator container text = .ok (more, rest)) :
    rest.length < text.length := by
  have hspace := length_skipSpace_le text
  unfold skipSeparator at h
  split at h
  · simp at h
  · rename_i b t heq
    rw [heq] at hspace
    simp only [List.length_cons] at hspace
    split at h
    · split at h
      · simp only [Except.ok.injEq, Prod.mk.injEq] at h
        simp only [← h.2]
        omega
      · simp only [bind_eq_ok, Except.ok.injEq, Prod.mk.injEq] at h
        obtain ⟨t', hkey, -, rfl⟩ := h
        have := length_skipKey_lt hkey
        omega
    · split at h
      · simp only [Except.ok.injEq, Prod.mk.injEq] at h
        simp only [← h.2]
        omega
      · simp at h

/-! ## Values -/

mutual

/-- Pass over a value, and then over all that the open containers still hold. -/
def skipValueIn (outer : List Container) (text : List UInt8) :
    Except Fault (List UInt8) :=
  match _h : skipStart text with
  | .error fault => .error fault
  | .ok (none, rest) => skipRestOf outer rest
  | .ok (some container, rest) => skipValueIn (container :: outer) rest
termination_by text.length
decreasing_by
  · exact length_skipStart_lt _h
  · exact length_skipStart_lt _h

/-- Pass over all that the open containers still hold after a value. -/
def skipRestOf (outer : List Container) (text : List UInt8) :
    Except Fault (List UInt8) :=
  match outer with
  | [] => .ok text
  | container :: outer =>
      match _h : skipSeparator container text with
      | .error fault => .error fault
      | .ok (true, rest) => skipValueIn (container :: outer) rest
      | .ok (false, rest) => skipRestOf outer rest
termination_by text.length
decreasing_by
  · exact length_skipSeparator_lt _h
  · exact length_skipSeparator_lt _h

end

/-- Pass over a value. -/
def skipValue (text : List UInt8) : Except Fault (List UInt8) := skipValueIn [] text

mutual

theorem length_skipValueIn_lt {outer : List Container} {text rest : List UInt8}
    (h : skipValueIn outer text = .ok rest) : rest.length < text.length := by
  rw [skipValueIn] at h
  split at h
  · simp at h
  · rename_i t hstart
    have hlt := length_skipStart_lt hstart
    have := length_skipRestOf_le h
    omega
  · rename_i container t hstart
    have hlt := length_skipStart_lt hstart
    have := length_skipValueIn_lt h
    omega
termination_by text.length

theorem length_skipRestOf_le {outer : List Container} {text rest : List UInt8}
    (h : skipRestOf outer text = .ok rest) : rest.length ≤ text.length := by
  rw [skipRestOf.eq_def] at h
  split at h
  · simp only [Except.ok.injEq] at h
    simp [h]
  · split at h
    · simp at h
    · rename_i t hsep
      have hlt := length_skipSeparator_lt hsep
      have := length_skipValueIn_lt h
      omega
    · rename_i t hsep
      have hlt := length_skipSeparator_lt hsep
      have := length_skipRestOf_le h
      omega
termination_by text.length

end

/-- Passing over a value uses up text. -/
theorem length_skipValue_lt {text rest : List UInt8} (h : skipValue text = .ok rest) :
    rest.length < text.length :=
  length_skipValueIn_lt h

end Decompiled.Json
