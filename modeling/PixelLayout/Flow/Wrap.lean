import PixelLayout.Item.Basic

/-!
# Breaking items into rows

Items are put into rows in order. An item joins the current row if it fits there with the
spacing in front of it, and else begins the next one. An item that is too wide for an empty row
closes that row.
-/

set_option autoImplicit false

namespace PixelLayout.Flow

def wrapFrom (space spacing : Int) : List Item → Int → List Item → List (List Item)
  | row, _, [] => if row.isEmpty then [] else [row]
  | row, left, item :: items =>
    let width := item.minimum.width
    if row.isEmpty then
      if space - width < 0 then [item] :: wrapFrom space spacing [] space items
      else wrapFrom space spacing [item] (space - width) items
    else if left < spacing + width then
      row :: wrapFrom space spacing [item] (space - width) items
    else wrapFrom space spacing (row ++ [item]) (left - spacing - width) items

def wrap (space spacing : Int) (items : List Item) : List (List Item) :=
  wrapFrom space spacing [] space items

end PixelLayout.Flow
