import StackLang.Numeral.Integer
import StackLang.Numeral.Places
import StackLang.Value.Basic

/-!
# The text of a value

Integers in decimal, reals with six places, characters and texts as they are, the elements of an
array one behind the other without any sign of the array, a block with its braces.

Writing goes to the end of a text (`Value.appendTo`); what it adds is the value's own text
whatever stood there before (`Value.appendTo_eq`).
-/

namespace StackLang

open StackLang.Numeral (integerText realText)

/-- The text of a block. -/
def Block.render (b : Block) : String :=
  "\x7b" ++ b.body ++ "\x7d"

namespace Value

/-! ## 1. Writing -/

mutual

/-- Writes a value at the end of a text. -/
def appendTo (out : String) : Value → String
  | .integer n => out ++ integerText n
  | .real r => out ++ realText r
  | .character c => out.push c
  | .text s => out ++ s
  | .array items => appendAllTo out items
  | .block b => out ++ b.render

/-- Writes values one behind the other at the end of a text. -/
def appendAllTo (out : String) : List Value → String
  | [] => out
  | v :: vs => appendAllTo (v.appendTo out) vs

end

/-- The text of a value. -/
def render (v : Value) : String :=
  v.appendTo ""

/-- The text of several values, without anything between them. -/
def renderAll (vs : List Value) : String :=
  appendAllTo "" vs

/-! ## 2. The text does not depend on where it is written -/

mutual

theorem appendTo_eq (out : String) : (v : Value) → v.appendTo out = out ++ v.render
  | .integer n => by simp [appendTo, render]
  | .real r => by simp [appendTo, render]
  | .character c => by
    rw [appendTo, ← String.append_singleton]
    rfl
  | .text s => by simp [appendTo, render]
  | .array items => by
    simpa [appendTo, render, renderAll] using appendAllTo_eq out items
  | .block b => by simp [appendTo, render]

theorem appendAllTo_eq (out : String) : (vs : List Value) →
    appendAllTo out vs = out ++ renderAll vs
  | [] => by simp [appendAllTo, renderAll]
  | v :: vs => by
    have h := appendAllTo_eq v.render vs
    rw [appendAllTo, appendAllTo_eq (v.appendTo out) vs, appendTo_eq out v, String.append_assoc,
      ← h]
    rfl

end

/-- To write values behind others is to write all of them. -/
theorem appendAllTo_append (out : String) (vs ws : List Value) :
    appendAllTo out (vs ++ ws) = appendAllTo (appendAllTo out vs) ws := by
  induction vs generalizing out with
  | nil => rfl
  | cons v vs ih => exact ih (v.appendTo out)

@[simp] theorem render_integer (n : Int64) : (integer n).render = integerText n := by
  simp [render, appendTo]

@[simp] theorem render_real (r : Float) : (real r).render = realText r := by
  simp [render, appendTo]

@[simp] theorem render_character (c : Char) : (character c).render = String.singleton c := rfl

@[simp] theorem render_text (s : String) : (text s).render = s := by
  simp [render, appendTo]

/-- An array shows nothing of itself. -/
@[simp] theorem render_array (items : List Value) : (array items).render = renderAll items := by
  simp [render, renderAll, appendTo]

@[simp] theorem render_block (b : Block) : (block b).render = b.render := by
  simp [render, appendTo]

@[simp] theorem renderAll_nil : renderAll [] = "" := rfl

@[simp] theorem renderAll_cons (v : Value) (vs : List Value) :
    renderAll (v :: vs) = v.render ++ renderAll vs := by
  rw [← appendAllTo_eq]
  rfl

@[simp] theorem renderAll_append (vs ws : List Value) :
    renderAll (vs ++ ws) = renderAll vs ++ renderAll ws := by
  induction vs with
  | nil => simp
  | cons v vs ih => simp [ih, String.append_assoc]

/-- Characters one behind the other are a text. -/
theorem renderAll_map_character (cs : List Char) :
    renderAll (cs.map .character) = String.ofList cs := by
  induction cs with
  | nil => rfl
  | cons c cs ih =>
    rw [List.map_cons, renderAll_cons, render_character, ih, ← String.toList_inj]
    simp

end Value

end StackLang
