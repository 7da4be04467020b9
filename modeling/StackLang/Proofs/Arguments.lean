import StackLang.Command.Options

/-!
# Arguments behind other arguments

Arguments are read from the left with the options that have been read so far. What those say stays
where the arguments behind them say nothing (`Command.ofArgumentsFrom_following`), and arguments
that can be used are read in the same way whatever follows them (`Command.ofArgumentsFrom_append`).
So to read two lists of arguments, one behind the other, is to read both and to let the second one
win (`Command.ofArguments_append`).

This does not hold of arguments that cannot be used: an option that waits for its value takes it
from what follows.
-/

namespace StackLang

/-! ## 1. Newer and older options -/

/-- Newer options, with the older ones where the newer ones say nothing. -/
def Options.following (newer older : Options) : Options :=
  ⟨newer.capacity.or older.capacity, newer.program.or older.program⟩

/-- A command with older options behind its own. Help has none. -/
def Command.following (older : Options) : Command → Command
  | .help => .help
  | .run newer => .run (newer.following older)

theorem Options.setCapacity_following (newer older : Options) (raw : String) :
    (newer.following older).setCapacity raw = (newer.setCapacity raw).map (·.following older) := by
  unfold setCapacity
  cases Numeral.size raw.toList <;> rfl

/-! ## 2. What stands first -/

namespace Command

variable {argument raw : String}

theorem ofArgumentsFrom_help (options : Options) (h : argument = "-h" ∨ argument = "--help")
    (rest : List String) : ofArgumentsFrom options (argument :: rest) = .ok .help := by
  unfold ofArgumentsFrom
  rw [if_pos h]

theorem ofArgumentsFrom_capacity (options : Options) (raw : String) (rest : List String) :
    ofArgumentsFrom options ("--capacity" :: raw :: rest) =
      (options.setCapacity raw).bind (ofArgumentsFrom · rest) := by
  rw [ofArgumentsFrom, if_neg (by decide), if_pos rfl]
  cases options.setCapacity raw <;> rfl

/-- No other option has a value behind an equals sign. -/
theorem ofArgumentsFrom_joined (options : Options) (h : capacityValue? argument = some raw)
    (rest : List String) :
    ofArgumentsFrom options (argument :: rest) =
      (options.setCapacity raw).bind (ofArgumentsFrom · rest) := by
  have hother : ∀ flag, capacityValue? flag = none → argument ≠ flag := by
    rintro flag hnone rfl
    rw [hnone] at h
    cases h
  rw [ofArgumentsFrom.eq_def]
  dsimp only
  rw [if_neg (not_or.mpr ⟨hother _ (by decide), hother _ (by decide)⟩),
    if_neg (hother _ (by decide)), if_neg (hother _ (by decide)), h]
  dsimp only
  cases options.setCapacity raw <;> rfl

theorem ofArgumentsFrom_unknown (options : Options)
    (hhelp : ¬(argument = "-h" ∨ argument = "--help")) (hcapacity : argument ≠ "--capacity")
    (hprogram : argument ≠ "-e") (h : capacityValue? argument = none) (rest : List String) :
    ofArgumentsFrom options (argument :: rest) = .error (.unknownArgument argument) := by
  rw [ofArgumentsFrom.eq_def]
  dsimp only
  rw [if_neg hhelp, if_neg hcapacity, if_neg hprogram, h]

/-- The value is what stands behind the equals sign, whatever it is. -/
theorem capacityValue?_append (raw : String) :
    capacityValue? ("--capacity=" ++ raw) = some raw := by
  rw [capacityValue?, afterStart?, String.toList_append, if_pos (by simp), List.drop_left,
    Option.map_some, String.ofList_toList]

/-- The two spellings of the capacity are read alike. -/
theorem ofArgumentsFrom_spellings (options : Options) (raw : String) (rest : List String) :
    ofArgumentsFrom options ("--capacity" :: raw :: rest) =
      ofArgumentsFrom options (("--capacity=" ++ raw) :: rest) := by
  rw [ofArgumentsFrom_capacity, ofArgumentsFrom_joined options (capacityValue?_append raw)]

/-! ## 3. Options read before -/

/-- **What was read before stays where the arguments say nothing.** The induction is over the
arguments as they are read, for all options that the arguments before have given. -/
theorem ofArgumentsFrom_following (newer older : Options) (arguments : List String) :
    ofArgumentsFrom (newer.following older) arguments =
      (ofArgumentsFrom newer arguments).map (following older) := by
  fun_induction ofArgumentsFrom newer arguments with
  | case1 | case3 | case6 => rfl
  | case2 newer argument rest hhelp => exact ofArgumentsFrom_help _ hhelp rest
  | case4 newer raw rest next hset _ ih =>
    rw [ofArgumentsFrom_capacity, Options.setCapacity_following, hset]
    exact ih
  | case5 newer raw rest fault hset =>
    rw [ofArgumentsFrom_capacity, Options.setCapacity_following, hset]
    rfl
  | case7 newer program rest _ _ ih => exact ih
  | case8 newer argument rest _ _ _ raw hraw next hset ih =>
    rw [ofArgumentsFrom_joined _ hraw, Options.setCapacity_following, hset]
    exact ih
  | case9 newer argument rest _ _ _ raw hraw fault hset =>
    rw [ofArgumentsFrom_joined _ hraw, Options.setCapacity_following, hset]
    rfl
  | case10 newer argument rest hhelp hcapacity hprogram hnone =>
    exact ofArgumentsFrom_unknown _ hhelp hcapacity hprogram hnone rest

theorem ofArgumentsFrom_eq (options : Options) (arguments : List String) :
    ofArgumentsFrom options arguments = (ofArguments arguments).map (following options) :=
  ofArgumentsFrom_following .unspecified options arguments

/-! ## 4. Arguments that follow -/

/-- How a command goes on that more arguments follow. Help is not asked for twice. -/
def goingOn (arguments : List String) : Command → Except UsageFault Command
  | .help => .ok .help
  | .run options => ofArgumentsFrom options arguments

/-- **Arguments that can be used are read in the same way whatever follows them.** -/
theorem ofArgumentsFrom_append {options : Options} {xs : List String} {command : Command}
    (h : ofArgumentsFrom options xs = .ok command) (ys : List String) :
    ofArgumentsFrom options (xs ++ ys) = command.goingOn ys := by
  fun_induction ofArgumentsFrom options xs with
  | case1 options =>
    cases h
    rfl
  | case2 options argument rest hhelp =>
    cases h
    exact ofArgumentsFrom_help _ hhelp _
  | case3 | case5 | case6 | case9 | case10 => cases h
  | case4 options raw rest next hset _ ih =>
    rw [List.cons_append, List.cons_append, ofArgumentsFrom_capacity, hset]
    exact ih h
  | case7 options program rest _ _ ih => exact ih h
  | case8 options argument rest _ _ _ raw hraw next hset ih =>
    rw [List.cons_append, ofArgumentsFrom_joined _ hraw, hset]
    exact ih h

/-- **To read arguments behind others is to read both, and the second ones win.** Behind arguments
for a run those that follow are read as they are alone, with help, fault and all; of two runs the
result has each option from the second where it is given there, and from the first where it is not.
Behind a request for help nothing matters. Behind arguments that can be used, both spellings of the
capacity give the same, with any value and before any arguments. -/
theorem ofArguments_append (xs ys : List String) :
    (∀ older, ofArguments xs = .ok (.run older) →
      ofArguments (xs ++ ys) =
        match ofArguments ys with
        | .ok .help => .ok .help
        | .ok (.run newer) =>
          .ok (.run ⟨newer.capacity.or older.capacity, newer.program.or older.program⟩)
        | .error fault => .error fault) ∧
    (ofArguments xs = .ok .help → ofArguments (xs ++ ys) = .ok .help) ∧
    ∀ command, ofArguments xs = .ok command → ∀ raw,
      ofArguments (xs ++ ["--capacity", raw] ++ ys) =
        ofArguments (xs ++ ["--capacity=" ++ raw] ++ ys) := by
  refine ⟨fun older h => ?_, fun h => ofArgumentsFrom_append h ys, fun command h raw => ?_⟩
  · have happend : ofArguments (xs ++ ys) = (ofArguments ys).map (following older) :=
      (ofArgumentsFrom_append h ys).trans (ofArgumentsFrom_eq older ys)
    rw [happend]
    rcases ofArguments ys with fault | (_ | newer) <;> rfl
  · have hspellings : command.goingOn (["--capacity", raw] ++ ys) =
        command.goingOn (["--capacity=" ++ raw] ++ ys) := by
      cases command with
      | help => rfl
      | run options => exact ofArgumentsFrom_spellings options raw ys
    have hseparate := ofArgumentsFrom_append h (["--capacity", raw] ++ ys)
    have hjoined := ofArgumentsFrom_append h (["--capacity=" ++ raw] ++ ys)
    rw [List.append_assoc, List.append_assoc]
    exact hseparate.trans (hspellings.trans hjoined.symm)

/-- A program that looks like an option, before a newer capacity; a request for help, before an
unknown argument; and a capacity that is none, in both spellings. -/
theorem ofArguments_append_newer :
    (ofArguments ["--capacity", "8", "-e", "--help"] = .ok (.run ⟨some 8, some "--help"⟩) ∧
      ofArguments (["--capacity", "8", "-e", "--help"] ++ ["--capacity=+9"]) =
        .ok (.run ⟨some 9, some "--help"⟩)) ∧
    (ofArguments ["-e", "1", "-h"] = .ok .help ∧
      ofArguments (["-e", "1", "-h"] ++ ["--verbose"]) = .ok .help) ∧
    (ofArguments ["-e", "1"] = .ok (.run ⟨none, some "1"⟩) ∧
      ofArguments (["-e", "1"] ++ ["--capacity", "-h"] ++ ["-e"]) =
        ofArguments (["-e", "1"] ++ ["--capacity=" ++ "-h"] ++ ["-e"])) := by
  have hrun : ofArguments ["--capacity", "8", "-e", "--help"] =
      .ok (.run ⟨some 8, some "--help"⟩) := rfl
  have hnewer : ofArguments ["--capacity=+9"] = .ok (.run ⟨some 9, none⟩) := rfl
  have hhelp : ofArguments ["-e", "1", "-h"] = .ok .help := rfl
  have hprogram : ofArguments ["-e", "1"] = .ok (.run ⟨none, some "1"⟩) := rfl
  have hboth := (ofArguments_append _ ["--capacity=+9"]).1 _ hrun
  rw [hnewer] at hboth
  exact ⟨⟨hrun, hboth⟩, ⟨hhelp, (ofArguments_append _ ["--verbose"]).2.1 hhelp⟩, hprogram,
    (ofArguments_append _ ["-e"]).2.2 _ hprogram "-h"⟩

end Command

end StackLang
