/-!
# Texts for a terminal

Stands for the library `tracing_subscriber`, which prints the warning of `eval` and is not part of
the source: which characters it spells out, and how, is taken as given.

A terminal does not show every character: it rings at the bell, it moves back or to a new page, it
deletes, and the escape and the characters from U+0080 to U+009F begin commands to it. A text that
may hold anything, such as the name of a file, is shown with those characters spelled out by their
two hexadecimal digits. Line breaks, tabs and the other controls stand for themselves.

* `Terminal.spellOut` is the text to show.

Results:
* `isCommand_of_mem_spellOut`: a text that is spelled out holds no command.
* `spellOut_of_not_isCommand`: a text without commands is shown as it is.
-/

namespace PostfixSheet

namespace Terminal

/-- Whether a terminal acts on a character: the bell, the backspace, the form feed, the escape, the
delete character or one from U+0080 to U+009F. -/
def isCommand (c : Char) : Bool :=
  ['\x07', '\x08', '\x0c', '\x1b', '\x7f'].contains c || (0x80 ≤ c.toNat && c.toNat ≤ 0x9F)

/-- The last two hexadecimal digits of a number. -/
def hexPair (n : Nat) : List Char := [Nat.digitChar (n / 16 % 16), Nat.digitChar (n % 16)]

/-- A character as it is shown: a command is spelled out, with braces around the digits if it is not
ASCII, and any other character stands for itself. -/
def spell (c : Char) : List Char :=
  if !isCommand c then [c]
  else if c.toNat < 128 then ['\\', 'x'] ++ hexPair c.toNat
  else ['\\', 'u', '{'] ++ hexPair c.toNat ++ ['}']

/-- A text with the commands in it spelled out. -/
def spellOut (text : String) : String := String.ofList (text.toList.flatMap spell)

theorem isCommand_digitChar : ∀ n < 16, isCommand (Nat.digitChar n) = false := by decide

theorem isCommand_of_mem_hexPair {n : Nat} {c : Char} (h : c ∈ hexPair n) :
    isCommand c = false := by
  simp only [hexPair, List.mem_cons, List.not_mem_nil, or_false] at h
  rcases h with rfl | rfl <;> exact isCommand_digitChar _ (Nat.mod_lt _ (by decide))

theorem isCommand_of_mem_spell {c d : Char} (h : d ∈ spell c) : isCommand d = false := by
  unfold spell at h
  split at h
  · rename_i hc
    rw [List.mem_singleton.1 h]
    simpa using hc
  split at h
  all_goals
    simp only [List.mem_append, List.mem_cons, List.not_mem_nil, or_false] at h
  · rcases h with (rfl | rfl) | h
    · decide
    · decide
    · exact isCommand_of_mem_hexPair h
  · rcases h with ((rfl | rfl | rfl) | h) | rfl
    · decide
    · decide
    · decide
    · exact isCommand_of_mem_hexPair h
    · decide

/-- **A text that is spelled out holds no command.** -/
theorem isCommand_of_mem_spellOut {text : String} {c : Char} (h : c ∈ (spellOut text).toList) :
    isCommand c = false := by
  rw [spellOut, String.toList_ofList] at h
  obtain ⟨_, _, hc⟩ := List.mem_flatMap.1 h
  exact isCommand_of_mem_spell hc

theorem spell_of_not_isCommand {c : Char} (h : isCommand c = false) : spell c = [c] := by
  simp [spell, h]

theorem spellOut_of_not_isCommand {text : String} (h : ∀ c ∈ text.toList, isCommand c = false) :
    spellOut text = text := by
  have hl : text.toList.flatMap spell = text.toList := by
    generalize text.toList = chars at h
    induction chars with
    | nil => rfl
    | cons c rest ih =>
      rw [List.flatMap_cons, spell_of_not_isCommand (h c List.mem_cons_self),
        ih fun d hd => h d (List.mem_cons_of_mem _ hd)]
      rfl
  rw [spellOut, hl, String.ofList_toList]

end Terminal

end PostfixSheet
