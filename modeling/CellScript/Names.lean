import Mathlib.Data.BitVec
import Mathlib.Data.List.GetD

/-!
# Names used unqualified

The facts about lists, options and machine words that the proofs of every module cite.
-/

namespace CellScript

export BitVec (allOnes eq_of_toNat_eq msb_eq_false_iff_two_mul_lt ofInt_natCast ofNat_add
  ofNat_sub_ofNat_of_le ofNat_toNat setWidth_eq toNat_ofNat toNat_setWidth toNat_ushiftRight
    ult_iff_lt)
export Bool (and_eq_true false_eq_true not_eq_true not_eq_true')
export Function (Injective)
export List (Forall₂ all_eq_true any_eq_false any_eq_true append_assoc append_cancel_left
  append_inj append_nil cons_append cons_ne_nil drop_zero filter_append filter_congr
  filter_eq_nil_iff find?_cons find?_some flatMap_cons flatten_append flatten_cons
  flatten_singleton foldlM_cons foldl_cons forall_mem_cons forall₂_eq_eq_eq forall₂_map_left_iff
  forall₂_map_right_iff forall₂_same getD_eq_getElem getElem?_eq_getElem getElem?_map getElem_map
  getElem_range getLast?_concat length_append length_cons length_drop length_eq_zero_iff length_map
  length_nil length_range length_replicate length_take map_append map_congr_left map_cons map_map
  map_nil map_singleton mem_append mem_append_left mem_append_right mem_cons mem_cons_of_mem
  mem_cons_self mem_filterMap mem_flatMap mem_iff_getElem? mem_map mem_map_of_mem
  mem_of_find?_eq_some mem_of_getElem? mem_of_mem_take mem_range mem_reverse mem_singleton
  mem_singleton_self nil_append nodup_cons not_mem_nil perm_insertionSort replicate take_add_one
  take_append_drop take_length take_of_length_le take_zero)
export Nat (mod_eq_of_lt mod_lt)
export Option (any_some bind_eq_bind bind_eq_some_iff bind_some elim_some getD_some
  isSome_iff_exists ite_none_left_eq_some ite_none_right_eq_some map_eq_some_iff map_none map_some
  mem_def mem_unique some.inj some.injEq toList_some)
export Relation (ReflTransGen TransGen)

end CellScript
