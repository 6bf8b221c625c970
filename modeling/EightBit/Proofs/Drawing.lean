import EightBit.Screen
import Mathlib.Data.List.Basic

/-!
The text screen as it is drawn.

Pixels are set one after the other: first each of them to the background, then, for every cell that
shows something, those within its rim to the foreground. A pixel has the colour that it was set to
last, so what is drawn is the picture of the screen.
-/

namespace EightBit

namespace Picture

def paint (c : Colour) (p : Picture) (pixels : List (Nat × Nat)) : Picture :=
  pixels.foldl (fun p q => p.set q.1 q.2 c) p

section Tabulate

variable {width height : Nat} {f g : Nat → Nat → Colour}

theorem size_tabulate : (tabulate width height f).bytes.size = width * height * 4 := by
  simp [tabulate, pixel, List.length_flatMap, List.map_const']

/-- Each pixel has four bytes behind those of the pixels before. -/
theorem getElem?_flatMap_pixel {α : Type} (colour : α → Colour) (l : List α) (n : Nat) {k : Nat}
    (hk : k < 4) :
    (l.flatMap fun a => pixel (colour a))[n * 4 + k]? =
      l[n]?.bind fun a => (pixel (colour a))[k]? := by
  induction l generalizing n with
  | nil => simp
  | cons a l ih =>
    have hlength : (pixel (colour a)).length = 4 := rfl
    rw [List.flatMap_cons]
    cases n with
    | zero =>
      rw [Nat.zero_mul, Nat.zero_add, List.getElem?_append_left (by omega)]
      rfl
    | succ n =>
      have hbehind : (n + 1) * 4 + k - 4 = n * 4 + k := by omega
      rw [List.getElem?_append_right (by omega), hlength, hbehind, ih, List.getElem?_cons_succ]

theorem getElem?_tabulate (n : Nat) {k : Nat} (hk : k < 4) :
    (tabulate width height f).bytes[n * 4 + k]? =
      if n < width * height then (pixel (f (n % width) (n / width)))[k]? else none := by
  simp only [tabulate, List.getElem?_toArray]
  rw [getElem?_flatMap_pixel (fun n => f (n % width) (n / width)) _ n hk]
  split
  · next hn => rw [List.getElem?_range hn, Option.bind_some]
  · next hn => rw [List.getElem?_eq_none (by simpa using hn), Option.bind_none]

theorem tabulate_congr (h : ∀ x < width, ∀ y < height, f x y = g x y) :
    tabulate width height f = tabulate width height g := by
  have hpixel : ∀ n ∈ List.range (width * height),
      pixel (f (n % width) (n / width)) = pixel (g (n % width) (n / width)) := by
    intro n hn
    rw [List.mem_range] at hn
    have hwidth : 0 < width := Nat.pos_of_mul_pos_right (Nat.zero_lt_of_lt hn)
    rw [h _ (Nat.mod_lt n hwidth) _ (Nat.div_lt_of_lt_mul hn)]
  rw [tabulate, List.flatMap_congr hpixel, tabulate]

theorem index_lt {x y : Nat} (hx : x < width) (hy : y < height) :
    y * width + x < width * height := by
  have hrows := Nat.mul_le_mul_right width (Nat.succ_le_of_lt hy)
  rw [Nat.succ_mul, Nat.mul_comm height width] at hrows
  omega

/-- The row and the column of a pixel tell its number. -/
theorem mod_div_eq_iff {n x y : Nat} (hx : x < width) :
    n % width = x ∧ n / width = y ↔ n = y * width + x := by
  constructor
  · rintro ⟨rfl, rfl⟩
    rw [Nat.mul_comm, Nat.div_add_mod]
  · rintro rfl
    have hwidth : 0 < width := Nat.zero_lt_of_lt hx
    rw [Nat.mul_comm, Nat.mul_add_mod, Nat.mod_eq_of_lt hx, Nat.mul_add_div hwidth,
      Nat.div_eq_of_lt hx]
    exact ⟨rfl, rfl⟩

/-- A pixel that is set gets its colour and any other keeps the one it has. -/
theorem set_tabulate (x y : Nat) (c : Colour) :
    (tabulate width height f).set x y c =
      tabulate width height fun i j => if i = x ∧ j = y then c else f i j := by
  have hset : (tabulate width height f).set x y c =
      if x < width ∧ y < height then
        ⟨width, height,
          (((tabulate width height f).bytes.setIfInBounds ((y * width + x) * 4) c.red).setIfInBounds
            ((y * width + x) * 4 + 1) c.green).setIfInBounds ((y * width + x) * 4 + 2) c.blue⟩
      else tabulate width height f := rfl
  rw [hset]
  split
  · next hinside =>
    obtain ⟨hx, hy⟩ := hinside
    have hlt := index_lt hx hy
    refine congrArg (Picture.mk width height) (Array.ext_getElem? fun i => ?_)
    -- The byte `i` is the byte `k` of the pixel `n`.
    obtain ⟨n, k, hk, rfl⟩ : ∃ n k, k < 4 ∧ i = n * 4 + k :=
      ⟨i / 4, i % 4, Nat.mod_lt _ (by decide), by omega⟩
    have hpixel := mod_div_eq_iff (n := n) (y := y) hx
    change _ = (tabulate width height fun i j => if i = x ∧ j = y then c else f i j).bytes[_]?
    simp only [Array.getElem?_setIfInBounds, Array.size_setIfInBounds, size_tabulate,
      getElem?_tabulate n hk]
    by_cases hn : n = y * width + x
    · rw [if_pos (hpixel.mpr hn), hn, if_pos hlt, if_pos hlt]
      obtain rfl | rfl | rfl | rfl : k = 0 ∨ k = 1 ∨ k = 2 ∨ k = 3 := by omega
      · rw [if_neg (by omega), if_neg (by omega), if_pos (by omega), if_pos (by omega)]
        rfl
      · rw [if_neg (by omega), if_pos (by omega), if_pos (by omega)]
        rfl
      · rw [if_pos (by omega), if_pos (by omega)]
        rfl
      · rw [if_neg (by omega), if_neg (by omega), if_neg (by omega)]
        rfl
    · rw [if_neg (mt hpixel.mp hn), if_neg (by omega), if_neg (by omega), if_neg (by omega)]
  · next houtside =>
    refine tabulate_congr fun i hi j hj => (if_neg ?_).symm
    rintro ⟨rfl, rfl⟩
    exact houtside ⟨hi, hj⟩

/-- Of some pixels that are painted, each gets the colour, however often it is among them. -/
theorem paint_tabulate (c : Colour) (pixels : List (Nat × Nat)) :
    (tabulate width height f).paint c pixels =
      tabulate width height fun x y => if (x, y) ∈ pixels then c else f x y := by
  induction pixels generalizing f with
  | nil => simp [paint]
  | cons q pixels ih =>
    rw [paint, List.foldl_cons, ← paint, set_tabulate, ih]
    refine tabulate_congr fun x _ y _ => ?_
    simp only [List.mem_cons, Prod.ext_iff]
    split_ifs <;> simp_all

theorem pixelAt_tabulate {x y : Nat} (hx : x < width) (hy : y < height) :
    (tabulate width height f).pixelAt x y = pixel (f x y) := by
  have hlt := index_lt hx hy
  obtain ⟨hcolumn, hrow⟩ := (mod_div_eq_iff hx).mpr (rfl : y * width + x = y * width + x)
  have hbyte : ∀ k < 4, (tabulate width height f).bytes.getD ((y * width + x) * 4 + k) 0 =
      (pixel (f x y)).getD k 0 := by
    intro k hk
    rw [Array.getD_eq_getD_getElem?, getElem?_tabulate _ hk, if_pos hlt, hcolumn, hrow,
      List.getD_eq_getElem?_getD]
  exact List.map_congr_left fun k hk => hbyte k (List.mem_range.mp hk)

end Tabulate

end Picture

namespace Screen

def clear (p : Picture) : Picture :=
  (List.range (rows * cell)).foldl (fun p y =>
    (List.range (columns * cell)).foldl (fun p x => p.set x y background) p) p

/-- Sets the pixels within the rim of the cell `i` to the foreground. -/
def drawCell (p : Picture) (i : Nat) : Picture :=
  (List.range' 1 (cell - 2)).foldl (fun p dy =>
    (List.range' 1 (cell - 2)).foldl (fun p dx =>
      p.set (i % columns * cell + dx) (i / columns * cell + dy) foreground) p) p

/-- The screen as it is drawn on a black picture, cell by cell. -/
def draw (codes : Code) (set : CharacterSet) : Picture :=
  (List.range (columns * rows)).foldl
    (fun p i => if visible (set (codes (base + i))) then drawCell p i else p)
    (clear (Picture.black (columns * cell) (rows * cell)))

def allPixels : List (Nat × Nat) :=
  (List.range (rows * cell)).flatMap fun y => (List.range (columns * cell)).map fun x => (x, y)

def cellPixels (i : Nat) : List (Nat × Nat) :=
  (List.range' 1 (cell - 2)).flatMap fun dy =>
    (List.range' 1 (cell - 2)).map fun dx => (i % columns * cell + dx, i / columns * cell + dy)

def litPixels (codes : Code) (set : CharacterSet) : List (Nat × Nat) :=
  ((List.range (columns * rows)).filter fun i => visible (set (codes (base + i)))).flatMap
    cellPixels

theorem clear_eq (p : Picture) : clear p = p.paint background allPixels := by
  simp only [clear, Picture.paint, allPixels, List.foldl_flatMap, List.foldl_map]

theorem drawCell_eq (p : Picture) (i : Nat) :
    drawCell p i = p.paint foreground (cellPixels i) := by
  simp only [drawCell, Picture.paint, cellPixels, List.foldl_flatMap, List.foldl_map]

theorem draw_eq (codes : Code) (set : CharacterSet) :
    draw codes set =
      (clear (Picture.black (columns * cell) (rows * cell))).paint foreground
        (litPixels codes set) := by
  have hlit (p : Picture) : p.paint foreground (litPixels codes set) =
      (List.range (columns * rows)).foldl
        (fun p i => if visible (set (codes (base + i))) then drawCell p i else p) p := by
    rw [Picture.paint, litPixels, List.foldl_flatMap, List.foldl_filter]
    simp only [drawCell_eq, Picture.paint]
  rw [hlit, draw]

theorem mem_allPixels {x y : Nat} (hx : x < columns * cell) (hy : y < rows * cell) :
    (x, y) ∈ allPixels := by
  simp only [allPixels, List.mem_flatMap, List.mem_map, List.mem_range]
  exact ⟨y, hy, x, hx, rfl⟩

theorem mem_cellPixels {x y i : Nat} (hx : x < columns * cell) :
    (x, y) ∈ cellPixels i ↔ inside x ∧ inside y ∧ i = y / cell * columns + x / cell := by
  simp only [cellPixels, List.mem_flatMap, List.mem_map, List.mem_range'_1, Prod.mk.injEq, inside,
    Bool.and_eq_true, decide_eq_true_eq, columns, cell] at hx ⊢
  constructor
  · rintro ⟨dy, hdy, dx, hdx, rfl, rfl⟩
    omega
  · rintro ⟨hxcell, hycell, rfl⟩
    exact ⟨y % 8, by omega, x % 8, by omega, by omega, by omega⟩

theorem mem_litPixels (codes : Code) (set : CharacterSet) {x y : Nat} (hx : x < columns * cell)
    (hy : y < rows * cell) :
    (x, y) ∈ litPixels codes set ↔ inside x ∧ inside y ∧
      visible (set (codes (base + (y / cell * columns + x / cell)))) := by
  simp only [litPixels, List.mem_flatMap, List.mem_filter, List.mem_range, mem_cellPixels hx]
  constructor
  · rintro ⟨i, ⟨-, hvisible⟩, hxcell, hycell, rfl⟩
    exact ⟨hxcell, hycell, hvisible⟩
  · rintro ⟨hxcell, hycell, hvisible⟩
    refine ⟨_, ⟨?_, hvisible⟩, hxcell, hycell, rfl⟩
    simp only [columns, rows, cell] at hx hy ⊢
    omega

theorem render_eq (codes : Code) (set : CharacterSet) :
    render codes set = Picture.tabulate (columns * cell) (rows * cell) fun x y =>
      if (x, y) ∈ litPixels codes set then foreground else background := by
  unfold render
  apply Picture.tabulate_congr
  intro x hx y hy
  have hcell : y / cell * columns + x / cell < columns * rows := by
    simp only [columns, rows, cell] at hx hy ⊢
    omega
  have hlit := mem_litPixels codes set hx hy
  simp only [hlit, Array.getD_eq_getD_getElem?, Array.getElem?_ofFn, hcell, dif_pos,
    Option.getD_some, Bool.and_eq_true, and_assoc]

theorem clear_tabulate (f : Nat → Nat → Colour) :
    clear (Picture.tabulate (columns * cell) (rows * cell) f) =
      Picture.tabulate (columns * cell) (rows * cell) fun _ _ => background := by
  rw [clear_eq, Picture.paint_tabulate]
  apply Picture.tabulate_congr
  intro x hx y hy
  have hmem := mem_allPixels hx hy
  simp only [hmem, ↓reduceIte]

/-- What is drawn is the picture of the screen. -/
theorem draw_eq_render (codes : Code) (set : CharacterSet) :
    draw codes set = render codes set := by
  rw [draw_eq, Picture.black, clear_tabulate, Picture.paint_tabulate, render_eq]

/-- The picture of a text screen, drawn cell by cell, has 320 by 200 opaque pixels. A pixel has the
foreground colour just if it is within the rim of a cell whose code stands for a character that can
be printed and is not the space, and else the background colour. -/
theorem render_shows_cells (m : Memory) (l : Latches) (set : CharacterSet) :
    let picture := render (m.read l) set
    picture = draw (m.read l) set ∧
      picture.width = 320 ∧ picture.height = 200 ∧ picture.bytes.size = 256000 ∧
      (∀ n : Fin 64000, picture.bytes[n.val * 4 + 3]? = some 255) ∧
      ∀ (x : Fin 320) (y : Fin 200),
        let glyph := set (m.read l (0x0400 + 40 * (y / 8) + x / 8))
        let lit := (1 ≤ x.val % 8 ∧ x.val % 8 ≤ 6) ∧ (1 ≤ y.val % 8 ∧ y.val % 8 ≤ 6) ∧
          glyph.printable = true ∧ glyph.char ≠ ' '
        (picture.pixelAt x y = Picture.pixel foreground ↔ lit) ∧
          (picture.pixelAt x y = Picture.pixel background ↔ ¬ lit) := by
  intro picture
  have hpicture : picture = Picture.tabulate 320 200 fun x y =>
      if (x, y) ∈ litPixels (m.read l) set then foreground else background :=
    render_eq (m.read l) set
  refine ⟨(draw_eq_render _ _).symm, rfl, rfl, ?_, ?_, ?_⟩
  · rw [hpicture, Picture.size_tabulate]
  · intro n
    rw [hpicture, Picture.getElem?_tabulate n.val (by decide), if_pos n.isLt]
    rfl
  · intro x y glyph lit
    have hlit : (x.val, y.val) ∈ litPixels (m.read l) set ↔ lit := by
      have haddr : base + (y / cell * columns + x / cell) = 0x0400 + 40 * (y / 8) + x / 8 := by
        simp only [base, columns, cell]
        omega
      rw [mem_litPixels _ _ x.isLt y.isLt, haddr]
      simp [inside, visible, lit, glyph]
    rw [hpicture, Picture.pixelAt_tabulate x.isLt y.isLt]
    by_cases h : lit
    · simp [hlit, h, Picture.pixel, foreground, background]
    · simp [hlit, h, Picture.pixel, foreground, background]

end Screen

end EightBit
