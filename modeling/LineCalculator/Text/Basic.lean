namespace LineCalculator

abbrev Text := List Char

end LineCalculator
